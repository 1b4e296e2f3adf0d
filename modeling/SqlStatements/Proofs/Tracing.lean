import Mathlib.Data.List.Forall2
import SqlStatements.Proofs.Keywords

namespace SqlStatements

namespace Event

/-- The records that blocks leave behind. -/
def isTraced (e : Event) : Bool := e.level == .trace || e.level == .warn

/-- The records of the outermost block that `b` opens, and the number of blocks open behind the
last of them. Each record leads to the next depth up or down, and none follows depth zero. -/
inductive Records (b : Token) : List Event → Nat → Prop where
  | entered : Records b [.blockEntered b.stop] 1
  | nested {es : List Event} {d : Nat} :
      Records b es (d + 1) → Records b (es ++ [.blockNested (d + 2)]) (d + 2)
  | closed {es : List Event} {d : Nat} :
      Records b es (d + 1) → Records b (es ++ [.blockClosed d]) d

/-- The records of an outermost block up to its end, which is depth zero or the end of the
input. -/
inductive Group (b : Token) : List Event → Prop where
  | closed {es : List Event} : Records b es 0 → Group b es
  | leftOpen {es : List Event} {d : Nat} :
      Records b es (d + 1) → Group b (es ++ [.blocksLeftOpen (d + 1)])

/-- The records of outermost blocks one after the other, and the number of blocks that are open
behind them. -/
inductive Trace : List Token → List Event → Nat → Prop where
  | between {bs : List Token} {groups : List (List Event)} :
      List.Forall₂ (Records · · 0) bs groups → Trace bs groups.flatten 0
  | within {bs : List Token} {groups : List (List Event)} {b : Token} {es : List Event} {d : Nat} :
      List.Forall₂ (Records · · 0) bs groups → Records b es (d + 1) →
        Trace (bs ++ [b]) (groups.flatten ++ es) (d + 1)

def warning : Nat → List Event
  | 0 => []
  | d + 1 => [.blocksLeftOpen (d + 1)]

theorem Records.level {b : Token} {es : List Event} {d : Nat} (h : Records b es d) :
    ∀ e ∈ es, e.level = .trace := by
  induction h with
  | entered => simp [Event.level]
  | nested _ ih | closed _ ih =>
    intro e he
    rcases List.mem_append.mp he with he | he
    · exact ih e he
    · rw [List.mem_singleton.mp he]
      rfl

namespace Trace
variable {bs : List Token} {es : List Event} {d : Nat}

theorem entered (h : Trace bs es 0) (b : Token) :
    Trace (bs ++ [b]) (es ++ [.blockEntered b.stop]) 1 := by
  cases h with
  | between hgroups => exact .within hgroups .entered

theorem nested (h : Trace bs es (d + 1)) : Trace bs (es ++ [.blockNested (d + 2)]) (d + 2) := by
  cases h with
  | within hgroups hlast =>
    rw [List.append_assoc]
    exact .within hgroups hlast.nested

/-- A record of depth zero completes the last group. -/
theorem closed (h : Trace bs es (d + 1)) : Trace bs (es ++ [.blockClosed d]) d := by
  cases h with
  | @within bs groups b es _ hgroups hlast =>
    rw [List.append_assoc]
    cases d with
    | zero =>
      have hall : List.Forall₂ (Records · · 0) (bs ++ [b]) (groups ++ [es ++ [.blockClosed 0]]) :=
        List.rel_append hgroups (.cons hlast.closed .nil)
      simpa using between hall
    | succ d => exact .within hgroups hlast.closed

theorem level (h : Trace bs es d) : ∀ e ∈ es, e.level = .trace := by
  have hflatten {bs : List Token} {groups : List (List Event)}
      (hgroups : List.Forall₂ (Records · · 0) bs groups) :
      ∀ e ∈ groups.flatten, e.level = .trace := by
    induction hgroups with
    | nil => simp
    | cons hgroup _ ih =>
      intro e he
      rw [List.flatten_cons, List.mem_append] at he
      exact he.elim (hgroup.level e) (ih e)
  cases h with
  | between hgroups => exact hflatten hgroups
  | within hgroups hlast =>
    intro e he
    exact (List.mem_append.mp he).elim (hflatten hgroups e) (hlast.level e)

/-- At the end of the input every group is complete. -/
theorem groups (h : Trace bs es d) :
    ∃ groups, es ++ warning d = groups.flatten ∧ List.Forall₂ Group bs groups := by
  cases h with
  | between hgroups =>
    exact ⟨_, List.append_nil _, hgroups.imp fun _ _ => .closed⟩
  | @within bs groups b es d hgroups hlast =>
    refine ⟨groups ++ [es ++ warning (d + 1)], by simp, ?_⟩
    exact List.rel_append (hgroups.imp fun _ _ => .closed) (.cons (.leftOpen hlast) .nil)

/-- Only the end of the input warns, and it warns once. -/
theorem last_of_warning {before after : List Event} {n : Nat} (h : Trace bs es d)
    (he : es ++ warning d = before ++ .blocksLeftOpen n :: after) :
    before = es ∧ after = [] ∧ n = d := by
  have hnone (m : Nat) : .blocksLeftOpen m ∉ es := by
    intro hm
    cases h.level _ hm
  cases d with
  | zero =>
    refine absurd ?_ (hnone n)
    rw [← List.append_nil es]
    exact he ▸ by simp
  | succ d =>
    rcases List.eq_nil_or_concat' after with rfl | ⟨front, e, rfl⟩
    · obtain ⟨hfront, hlast⟩ := List.append_inj' he rfl
      cases hlast
      exact ⟨hfront.symm, rfl, rfl⟩
    · have hmove : before ++ .blocksLeftOpen n :: (front ++ [e]) =
          before ++ .blocksLeftOpen n :: front ++ [e] := by simp
      rw [hmove] at he
      obtain ⟨hfront, -⟩ := List.append_inj' he rfl
      exact absurd (hfront ▸ by simp) (hnone n)

theorem isTraced (h : Trace bs es d) : ∀ e ∈ es ++ warning d, e.isTraced = true := by
  intro e he
  rcases List.mem_append.mp he with he | he
  · simp [Event.isTraced, h.level e he]
  · cases d with
    | zero => cases he
    | succ d =>
      rw [List.mem_singleton.mp he]
      rfl

theorem warning_iff {n : Nat} (h : Trace bs es d) :
    .blocksLeftOpen n ∈ es ++ warning d ↔ 0 < n ∧ d = n := by
  have hnone : .blocksLeftOpen n ∉ es := by
    intro hm
    cases h.level _ hm
  rw [List.mem_append, or_iff_right hnone]
  cases d with
  | zero => exact iff_of_false List.not_mem_nil (by omega)
  | succ d =>
    rw [warning, List.mem_singleton, Event.blocksLeftOpen.injEq]
    omega

end Trace
end Event

namespace Assembly

/-- The tokens that open an outermost block while an assembly reads on. -/
def openers (a : Assembly) : List Token → List Token
  | [] => []
  | t :: ts =>
    (if a.mode = .standard ∧ t.isBegin = true then [t] else []) ++ (a.read t).openers ts

/-- The number of blocks that the end of the input leaves open. An `END` that waits for its
closer there closes its block. -/
def Mode.leftOpen : Mode → Nat
  | .standard => 0
  | .block _ below => below.length + 1
  | .closing _ below _ => below.length
  | .finished => 0

theorem events_close (a : Assembly) (below : List Frame) :
    (a.close below).events = a.events ++ [.blockClosed below.length] ∧
      (a.close below).mode.depth = below.length := by
  cases below <;> exact ⟨rfl, rfl⟩

/-- A step writes the record that goes with the way it changes the depth. -/
theorem trace_read {a : Assembly} {t : Token} {bs : List Token}
    (h : Event.Trace bs a.events a.mode.depth) (ht : t.isEof = false) :
    Event.Trace (bs ++ a.openers [t]) (a.read t).events (a.read t).mode.depth := by
  cases hm : a.mode with
  | standard =>
    rw [hm] at h
    by_cases hb : t.isBegin = true
    · rw [read_begin hm hb]
      simpa [openers, hm, hb, Mode.depth] using h.entered t
    · have hsame : (a.read t).events = a.events ∧ (a.read t).mode.depth = a.mode.depth := by
        rw [read_standard hm, readStandard]
        cases t.kind <;> simp [hb, hm, Mode.depth]
      rw [hsame.1, hsame.2, hm]
      simpa [openers, hb] using h
  | block top below =>
    rw [hm] at h
    rw [read_block hm, readBlock, ht]
    simp only [Bool.false_eq_true, if_false]
    by_cases hb : t.isBegin = true
    · simpa [openers, hm, hb, Mode.depth] using h.nested
    by_cases he : t.isEnd = true <;> simpa [openers, hm, hb, he, Mode.depth] using h
  | closing top below held =>
    rw [hm] at h
    have hopeners : bs ++ a.openers [t] = bs := by simp [openers, hm]
    rw [hopeners]
    rcases read_closing_cases hm ht with ⟨-, hr⟩ | ⟨-, -, -, hr⟩ | ⟨-, -, -, hr⟩ | ⟨-, -, hr⟩
    · rw [hr]
      exact h
    · obtain ⟨hevents, hdepth⟩ := (a.push (tail t)).events_close below
      rw [hr, hevents, hdepth]
      exact h.closed
    · obtain ⟨hevents, hdepth⟩ := (a.push (held ++ t.text)).events_close below
      rw [hr, hevents, hdepth]
      exact h.closed
    · rw [hr]
      exact h
  | finished =>
    rw [read_finished hm]
    simpa [openers, hm] using h

theorem trace_readAll {a : Assembly} {bs ts : List Token}
    (h : Event.Trace bs a.events a.mode.depth) (ht : ∀ t ∈ ts, t.isEof = false) :
    Event.Trace (bs ++ a.openers ts) (a.readAll ts).events (a.readAll ts).mode.depth := by
  induction ts generalizing a bs with
  | nil => simpa [openers] using h
  | cons t ts ih =>
    have hrest := ih (trace_read h (ht t (by simp))) (fun u hu => ht u (by simp [hu]))
    simpa [openers] using hrest

/-- The end of the input closes the block whose `END` waits, and warns about the others. -/
theorem trace_conclude {a : Assembly} {bs : List Token}
    (h : Event.Trace bs a.events a.mode.depth) :
    ∃ es, Event.Trace bs es a.mode.leftOpen ∧
      a.conclude.events = es ++ Event.warning a.mode.leftOpen := by
  cases hm : a.mode with
  | standard =>
    rw [hm] at h
    refine ⟨a.events, h, ?_⟩
    rw [conclude_eq_of_standard hm]
    simp [Mode.leftOpen, Event.warning]
  | block top below =>
    rw [hm] at h
    refine ⟨a.events, h, ?_⟩
    rw [conclude_eq_of_block hm, conclude_eq_of_standard rfl]
    simp [Mode.leftOpen, Event.warning]
  | closing top below held =>
    rw [hm] at h
    refine ⟨a.events ++ [.blockClosed below.length], h.closed, ?_⟩
    rw [conclude_eq_of_closing hm, ← (a.events_close below).1]
    cases below with
    | nil =>
      rw [conclude_eq_of_standard rfl]
      simp [Mode.leftOpen, Event.warning]
    | cons next below =>
      rw [conclude_eq_of_block rfl, conclude_eq_of_standard rfl]
      simp [Mode.leftOpen, Event.warning]
  | finished =>
    rw [hm] at h
    refine ⟨a.events, h, ?_⟩
    rw [conclude, read_finished hm, read_finished hm, read_finished hm]
    simp [Mode.leftOpen, Event.warning]

end Assembly

open Assembly

/-- A run that ends with statements leaves a trace of its blocks, and a warning about those that
are left open. -/
theorem exists_trace {settings : Settings} {script : Text} {out : List Text} {ts : List Token}
    (hout : (splitUnchecked settings script).result = .ok out)
    (hts : (TokenStream.read settings 0 script).tokens = ts) :
    ∃ es, Event.Trace (empty.openers ts) es (empty.readAll ts).mode.leftOpen ∧
      (splitUnchecked settings script).events =
        es ++ Event.warning (empty.readAll ts).mode.leftOpen := by
  subst hts
  obtain ⟨hu, -⟩ := splitUnchecked_ok_iff.mp hout
  have hstart : Event.Trace [] empty.events empty.mode.depth := .between .nil
  have hread := trace_readAll hstart (TokenStream.chain_read hu).1.isEof
  obtain ⟨es, htrace, hevents⟩ := trace_conclude hread
  refine ⟨es, htrace, ?_⟩
  rw [← hevents, splitUnchecked_eq, TokenStream.failure?, hu]
  rfl

/-- The blocks of a run leave records in groups, one group for each outermost block, which walk
from depth one to depth zero. Only the last walk may stop before that, where the input ends: there
a warning tells the number of blocks that are open. Splitting under valid settings leaves the same
records. -/
theorem records_walk_depths {settings : Settings} {script : Text} {out : List Text}
    (hout : (splitUnchecked settings script).result = .ok out) :
    let tokens := (TokenStream.read settings 0 script).tokens
    let records := (splitUnchecked settings script).events.filter Event.isTraced
    (∃ groups, records = groups.flatten ∧
      List.Forall₂ Event.Group (empty.openers tokens) groups) ∧
    (∀ before n after, records = before ++ .blocksLeftOpen n :: after →
      after = [] ∧ ∀ m, .blocksLeftOpen m ∉ before) ∧
    (∀ n, .blocksLeftOpen n ∈ records ↔ 0 < n ∧ (empty.readAll tokens).mode.leftOpen = n) ∧
    (settings.validate = .ok () →
      (split settings script).events.filter Event.isTraced = records) := by
  intro tokens records
  obtain ⟨es, htrace, hevents⟩ := exists_trace hout rfl
  obtain ⟨groups, hgroups, hall⟩ := htrace.groups
  have hrecords : records = es ++ Event.warning (empty.readAll tokens).mode.leftOpen := by
    rw [← hevents, List.filter_eq_self, hevents]
    exact htrace.isTraced
  refine ⟨⟨groups, hrecords.trans hgroups, hall⟩, ?_, ?_, ?_⟩
  · intro before n after he
    obtain ⟨rfl, hafter, -⟩ := htrace.last_of_warning (hrecords.symm.trans he)
    refine ⟨hafter, ?_⟩
    intro m hm
    cases htrace.level _ hm
  · intro n
    rw [hrecords]
    exact htrace.warning_iff
  · intro hv
    rw [split_of_valid hv, Logged.andThen, hout]
    simp [records, Event.isTraced, Event.level]

/-- A block that goes on behind `END LOOP`, and one whose inner block closes at the end of the
input. -/
theorem records_walk_depths_to_warning :
    let script := "BEGIN BEGIN x; END; END LOOP; END; y; BEGIN BEGIN END /*c*/".toList
    let out := ["BEGIN BEGIN x; END; END LOOP; END".toList, ['y'], "BEGIN BEGIN END".toList]
    let openers : List Token :=
      [⟨.identifier, "BEGIN".toList, 0⟩, ⟨.identifier, "BEGIN".toList, 38⟩]
    let records : List Event := [.blockEntered 5, .blockNested 2, .blockClosed 1, .blockClosed 0,
      .blockEntered 43, .blockNested 2, .blockClosed 1, .blocksLeftOpen 1]
    (splitUnchecked .standard script).result = .ok out ∧
      (splitUnchecked .standard script).events = records ∧
      ∃ groups, records = groups.flatten ∧ List.Forall₂ Event.Group openers groups := by
  intro script out openers records
  have hout : (splitUnchecked .standard script).result = .ok out := by
    rw [splitUnchecked_ok_iff]
    decide +kernel
  have hevents : (splitUnchecked .standard script).events = records := by
    rw [splitUnchecked_eq]
    decide +kernel
  have hopeners : empty.openers (TokenStream.read .standard 0 script).tokens = openers := by
    decide +kernel
  have hgroups := (records_walk_depths hout).1
  rw [hevents, hopeners] at hgroups
  exact ⟨hout, hevents, hgroups⟩

end SqlStatements
