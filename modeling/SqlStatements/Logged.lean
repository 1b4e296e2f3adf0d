import SqlStatements.Event

namespace SqlStatements

/-- The log of a run and the way it ends. The log of a failed run is kept. -/
structure Logged (ε α : Type) where
  events : List Event
  result : Except ε α

namespace Logged

def ofExcept (result : Except ε α) : Logged ε α := ⟨[], result⟩

def log (event : Event) : Logged ε Unit := ⟨[event], .ok ()⟩

def andThen (first : Logged ε α) (next : α → Logged ε β) : Logged ε β :=
  match first.result with
  | .error e => ⟨first.events, .error e⟩
  | .ok value => ⟨first.events ++ (next value).events, (next value).result⟩

def mapError (f : ε → δ) (run : Logged ε α) : Logged δ α :=
  ⟨run.events, run.result.mapError f⟩

instance : Monad (Logged ε) where
  pure value := ofExcept (.ok value)
  bind := andThen

/-- The result of two runs is that of the second one, unless the first one fails. -/
theorem result_bind {ε α β : Type} (run : Logged ε α) (next : α → Logged ε β) :
    (run >>= next).result =
      match run.result with
      | .error e => .error e
      | .ok value => (next value).result := by
  obtain ⟨events, result⟩ := run
  cases result <;> rfl

end Logged
end SqlStatements
