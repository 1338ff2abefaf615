import LuaBackend.Scope
import Mathlib.Data.List.Forall2
import Mathlib.Data.List.Induction
import Mathlib.Tactic.Common

/-!
# What a scope remembers of its history

A scope answers from the names its frames hold.  Here the same answers are read off the operations
that were done to it: the forks and leaves say which frames are open (`Scope.opened`), and the
definitions say which names each of them has (`Scope.Defined`).  A frame is known by the time it
was opened, so a frame that was closed and one that was opened later are never confused.

`Scope.reflects_replay` is the invariant: after every history, the frames of the scope and the open
frames of the history agree one by one.
-/

namespace LuaBackend.Scope

/-! ## Operations -/

inductive Op where
  | define (name : String)
  | fork (kind : FrameKind)
  | leave
deriving DecidableEq, Repr, Inhabited

/-- A definition that is refused leaves the scope as it was. -/
def apply (scope : Scope) : Op → Scope
  | .define name => ((scope.define? name).map Prod.snd).getD scope
  | .fork kind => scope.fork kind
  | .leave => scope.leave

def replay (scope : Scope) (ops : List Op) : Scope := ops.foldl apply scope

theorem replay_cons (scope : Scope) (op : Op) (ops : List Op) :
    scope.replay (op :: ops) = (scope.apply op).replay ops := rfl

theorem replay_append (scope : Scope) (first second : List Op) :
    scope.replay (first ++ second) = (scope.replay first).replay second :=
  List.foldl_append

theorem replay_concat (scope : Scope) (ops : List Op) (op : Op) :
    scope.replay (ops ++ [op]) = (scope.replay ops).apply op :=
  scope.replay_append ops [op]

theorem isDefinedHere_eq_true_iff {scope : Scope} {name : String} :
    scope.isDefinedHere name = true ↔ name ∈ scope.current.names :=
  List.contains_iff_mem

theorem define?_eq_none_iff {scope : Scope} {name : String} :
    scope.define? name = none ↔ name ∈ scope.current.names := by
  rw [← isDefinedHere_eq_true_iff]
  cases hhere : scope.isDefinedHere name <;> simp [define?, hhere]

/-- Refused or not, a definition only touches the names of the innermost frame, and the name is
among them afterwards. -/
theorem exists_apply_define (scope : Scope) (name : String) :
    ∃ names, scope.apply (.define name) = { scope with current.names := names } ∧
      ∀ other, other ∈ names ↔ other = name ∨ other ∈ scope.current.names := by
  by_cases hhere : name ∈ scope.current.names
  · refine ⟨scope.current.names, ?_, fun other => ?_⟩
    · rw [apply, define?_eq_none_iff.2 hhere]
      rfl
    · exact ⟨.inr, fun hother => hother.elim (fun heq => heq ▸ hhere) id⟩
  · refine ⟨name :: scope.current.names, ?_, fun other => List.mem_cons⟩
    rw [apply, define?, if_neg fun hdefined => hhere (isDefinedHere_eq_true_iff.1 hdefined)]
    rfl

theorem leave_of_outer_eq_cons {scope : Scope} {frame : Frame} {outer : List Frame}
    (houter : scope.outer = frame :: outer) :
    scope.leave = { scope with current := frame, outer } := by
  rw [leave, houter]

theorem leave_of_outer_eq_nil {scope : Scope} (houter : scope.outer = []) :
    scope.leave = scope := by
  rw [leave, houter]

@[simp] theorem rootBinding_apply (scope : Scope) (op : Op) :
    (scope.apply op).rootBinding = scope.rootBinding := by
  cases op with
  | define name =>
      obtain ⟨names, happly, -⟩ := scope.exists_apply_define name
      rw [happly]
  | fork kind => rfl
  | leave =>
      change scope.leave.rootBinding = _
      cases houter : scope.outer with
      | nil => rw [leave_of_outer_eq_nil houter]
      | cons frame outer => rw [leave_of_outer_eq_cons houter]

@[simp] theorem rootBinding_replay (scope : Scope) (ops : List Op) :
    (scope.replay ops).rootBinding = scope.rootBinding := by
  induction ops generalizing scope with
  | nil => rfl
  | cons op ops ih => rw [replay_cons, ih, rootBinding_apply]

/-! ## Balanced histories -/

/-- Every frame that the operations open they close again, and they close no other. -/
inductive Nested : List Op → Prop
  | nil : Nested []
  | define {rest : List Op} (name : String) : Nested rest → Nested (.define name :: rest)
  | fork {body rest : List Op} (kind : FrameKind) : Nested body → Nested rest →
      Nested (.fork kind :: body ++ .leave :: rest)

theorem leave_replay_fork {scope : Scope} {kind : FrameKind} {body : List Op}
    (houter : ((scope.fork kind).replay body).outer = scope.frames) :
    ((scope.fork kind).replay body).leave = scope := by
  rw [leave_of_outer_eq_cons houter, rootBinding_replay]
  rfl

theorem Nested.outer_replay {ops : List Op} (hops : Nested ops) (scope : Scope) :
    (scope.replay ops).outer = scope.outer := by
  induction hops generalizing scope with
  | nil => rfl
  | define name _ ih =>
      obtain ⟨names, happly, -⟩ := scope.exists_apply_define name
      rw [replay_cons, ih, happly]
  | @fork body rest kind _ _ ihbody ihrest =>
      rw [replay_append, replay_cons, replay_cons]
      change ((((scope.fork kind).replay body).leave).replay rest).outer = scope.outer
      rw [leave_replay_fork (ihbody _), ihrest]

theorem Nested.replay_segment {body : List Op} (hbody : Nested body) (kind : FrameKind)
    (scope : Scope) : scope.replay (.fork kind :: body ++ [.leave]) = scope := by
  rw [replay_concat, replay_cons]
  exact leave_replay_fork (hbody.outer_replay _)

/-! ## The open frames of a history -/

/-- A frame as a history knows it: `since` counts the operations up to the one that opened it. -/
structure Opening where
  kind : FrameKind
  since : Nat
deriving DecidableEq, Repr, Inhabited

/-- The open frames behind one more operation.  The root frame is never closed. -/
def openedAfter (frames : List Opening) (time : Nat) : Op → List Opening
  | .define _ => frames
  | .fork kind => ⟨kind, time⟩ :: frames
  | .leave => if frames.length = 1 then frames else frames.tail

/-- The frames that are open after the operations, innermost first. -/
def opened (history : List Op) : List Opening :=
  (history.zipIdx 1).foldl (fun frames (op, time) => openedAfter frames time op) [⟨.function, 0⟩]

theorem opened_concat (history : List Op) (op : Op) :
    opened (history ++ [op]) = openedAfter (opened history) (history.length + 1) op := by
  simp [opened, List.zipIdx_append, Nat.add_comm]

theorem mem_openedAfter {frames : List Opening} {time : Nat} {op : Op} {frame : Opening}
    (hframe : frame ∈ openedAfter frames time op) : frame ∈ frames ∨ frame.since = time := by
  cases op with
  | define name => exact .inl hframe
  | fork kind =>
      rcases List.mem_cons.1 hframe with rfl | hframe
      · exact .inr rfl
      · exact .inl hframe
  | leave =>
      rw [openedAfter] at hframe
      split at hframe
      · exact .inl hframe
      · exact .inl (List.mem_of_mem_tail hframe)

theorem since_le_of_mem_opened {history : List Op} {frame : Opening}
    (hframe : frame ∈ opened history) : frame.since ≤ history.length := by
  induction history using List.reverseRecOn with
  | nil =>
      obtain rfl := List.mem_singleton.1 hframe
      exact Nat.le_refl 0
  | append_singleton history op ih =>
      rw [List.length_append, List.length_singleton]
      rw [opened_concat] at hframe
      rcases mem_openedAfter hframe with hold | hnew
      · exact Nat.le_succ_of_le (ih hold)
      · exact Nat.le_of_eq hnew

/-- Frames further inside were opened later. -/
theorem pairwise_since_opened (history : List Op) :
    (opened history).Pairwise fun inner outer => outer.since < inner.since := by
  induction history using List.reverseRecOn with
  | nil => exact List.pairwise_singleton _ _
  | append_singleton history op ih =>
      rw [opened_concat]
      cases op with
      | define name => exact ih
      | fork kind =>
          refine List.pairwise_cons.2 ⟨fun outer houter => ?_, ih⟩
          exact Nat.lt_succ_of_le (since_le_of_mem_opened houter)
      | leave =>
          rw [openedAfter]
          split
          · exact ih
          · exact ih.tail

/-! ## The names of a frame -/

/-- A definition of the name was asked for while the frame was the innermost one. -/
def Defined (history : List Op) (frame : Opening) (name : String) : Prop :=
  ∃ before after, history = before ++ .define name :: after ∧ (opened before).head? = some frame

theorem Defined.append {history : List Op} {frame : Opening} {name : String}
    (hdefined : Defined history frame name) (later : List Op) :
    Defined (history ++ later) frame name := by
  obtain ⟨before, after, rfl, hframe⟩ := hdefined
  exact ⟨before, after ++ later, by simp, hframe⟩

theorem defined_concat_iff {history : List Op} {op : Op} {frame : Opening} {name : String} :
    Defined (history ++ [op]) frame name ↔
      Defined history frame name ∨ op = .define name ∧ (opened history).head? = some frame := by
  constructor
  · rintro ⟨before, after, hhistory, hframe⟩
    cases after using List.reverseRecOn with
    | nil =>
        obtain ⟨rfl, hop⟩ := List.append_inj' hhistory rfl
        exact .inr ⟨(List.cons.inj hop).1, hframe⟩
    | append_singleton after last =>
        rw [← List.cons_append, ← List.append_assoc] at hhistory
        obtain ⟨rfl, -⟩ := List.append_inj' hhistory rfl
        exact .inl ⟨before, after, rfl, hframe⟩
  · rintro (hdefined | ⟨rfl, hframe⟩)
    · exact hdefined.append [op]
    · exact ⟨history, [], rfl, hframe⟩

theorem Defined.since_le {history : List Op} {frame : Opening} {name : String}
    (hdefined : Defined history frame name) : frame.since ≤ history.length := by
  obtain ⟨before, after, rfl, hframe⟩ := hdefined
  have hsince := since_le_of_mem_opened (List.mem_of_head? hframe)
  rw [List.length_append]
  omega

/-! ## The invariant -/

/-- The frame of the scope is the one that the history opened. -/
structure Reflects (history : List Op) (frame : Frame) (opening : Opening) : Prop where
  kind : frame.kind = opening.kind
  names : ∀ name, name ∈ frame.names ↔ Defined history opening name

/-- An operation that defines nothing in a frame keeps what the frame reflects. -/
theorem Reflects.concat {history : List Op} {frame : Frame} {opening : Opening}
    (hreflects : Reflects history frame opening) {op : Op}
    (hother : ∀ name, op = .define name → (opened history).head? ≠ some opening) :
    Reflects (history ++ [op]) frame opening where
  kind := hreflects.kind
  names name := by
    rw [hreflects.names, defined_concat_iff, or_iff_left]
    exact fun ⟨hop, hhead⟩ => hother name hop hhead

theorem Reflects.fork (history : List Op) (kind : FrameKind) :
    Reflects (history ++ [.fork kind]) { kind } ⟨kind, history.length + 1⟩ where
  kind := rfl
  names name := by
    refine iff_of_false List.not_mem_nil fun hdefined => ?_
    rcases defined_concat_iff.1 hdefined with hearlier | ⟨hop, -⟩
    · exact absurd hearlier.since_le (Nat.not_succ_le_self _)
    · cases hop

theorem reflects_define {history : List Op} {name : String} {scope : Scope}
    (hreflects : List.Forall₂ (Reflects history) scope.frames (opened history)) :
    List.Forall₂ (Reflects (history ++ [.define name])) (scope.apply (.define name)).frames
      (opened history) := by
  have hsince := pairwise_since_opened history
  obtain ⟨names, happly, hnames⟩ := scope.exists_apply_define name
  rw [happly]
  cases hopened : opened history with
  | nil => simp [frames, hopened] at hreflects
  | cons opening openings =>
      rw [hopened] at hreflects hsince
      obtain ⟨hcurrent, houter⟩ := List.forall₂_cons.1 hreflects
      refine .cons ⟨hcurrent.kind, fun other => ?_⟩ ?_
      · rw [hnames, hcurrent.names, defined_concat_iff, hopened, or_comm]
        simp [eq_comm]
      · -- The frames around the innermost one were opened before it, so they are other frames.
        obtain ⟨hlength, hzip⟩ := List.forall₂_iff_zip.1 houter
        refine List.forall₂_iff_zip.2
          ⟨hlength, fun hpair => (hzip hpair).concat fun _ _ hhead => ?_⟩
        have hearlier := (List.pairwise_cons.1 hsince).1 _ (List.of_mem_zip hpair).2
        rw [hopened, List.head?_cons, Option.some.injEq] at hhead
        exact absurd hearlier (hhead ▸ Nat.lt_irrefl _)

theorem reflects_leave {history : List Op} {scope : Scope} {openings : List Opening} {time : Nat}
    (hreflects : List.Forall₂ (Reflects history) scope.frames openings) :
    List.Forall₂ (Reflects history) scope.leave.frames (openedAfter openings time .leave) := by
  obtain ⟨opening, around, hcurrent, haround, rfl⟩ := List.forall₂_cons_left_iff.1 hreflects
  cases houter : scope.outer with
  | nil =>
      rw [houter, List.forall₂_nil_left_iff] at haround
      subst haround
      rw [leave_of_outer_eq_nil houter]
      exact hreflects
  | cons frame outer =>
      rw [houter] at haround
      have hlength := haround.length_eq
      rw [leave_of_outer_eq_cons houter, openedAfter, if_neg (by simp [← hlength])]
      exact haround

/-- After every history, the frames of the scope are the ones that the history left open. -/
theorem reflects_replay (rootBinding : Binding) (history : List Op) :
    List.Forall₂ (Reflects history) (replay { rootBinding } history).frames (opened history) := by
  induction history using List.reverseRecOn with
  | nil =>
      refine .cons ⟨rfl, fun name => iff_of_false List.not_mem_nil ?_⟩ .nil
      rintro ⟨before, after, hhistory, -⟩
      simp at hhistory
  | append_singleton history op ih =>
      rw [replay_concat, opened_concat]
      have hkeep (hop : ∀ name, op ≠ .define name) :
          List.Forall₂ (Reflects (history ++ [op])) (replay { rootBinding } history).frames
            (opened history) :=
        ih.imp fun _ _ hreflects => hreflects.concat fun name heq => absurd heq (hop name)
      cases op with
      | define name => exact reflects_define ih
      | fork kind => exact .cons (Reflects.fork history kind) (hkeep nofun)
      | leave => exact reflects_leave (hkeep nofun)

/-! ## The answers -/

/-- The resolution speaks of a frame with these frames around it and these ones inside it. -/
structure Describes (found : Resolution) (rootBinding : Binding) (name : String)
    (inner outer : List Opening) : Prop where
  name : found.symbol.name = name
  depth : found.symbol.depth = outer.length
  binding : found.symbol.binding = .global ↔ outer.length = 0 ∧ rootBinding = .global
  distance : found.distance = inner.length
  captured : found.captured = true ↔ ∃ opening ∈ inner, opening.kind = .function

theorem bindingAt_eq_global_iff {rootBinding : Binding} {depth : Nat} :
    bindingAt rootBinding depth = .global ↔ depth = 0 ∧ rootBinding = .global := by
  by_cases hdepth : depth = 0 <;> simp [bindingAt, hdepth]

/-- Walking outwards finds the first frame that has the name. -/
theorem exists_describes_resolveIn {history : List Op} {rootBinding : Binding} {name : String}
    {frames : List Frame} {openings : List Opening}
    (hreflects : List.Forall₂ (Reflects history) frames openings) {found : Resolution}
    (hfound : resolveIn rootBinding name frames = some found) :
    ∃ inner opening outer, openings = inner ++ opening :: outer ∧
      Defined history opening name ∧ (∀ other ∈ inner, ¬ Defined history other name) ∧
      Describes found rootBinding name inner outer := by
  induction hreflects generalizing found with
  | nil => cases hfound
  | @cons frame opening frames openings hframe hframes ih =>
      rw [resolveIn] at hfound
      split at hfound
      · rename_i hhere
        obtain rfl := Option.some.inj hfound
        refine ⟨[], opening, openings, rfl, (hframe.names name).1 (List.contains_iff_mem.1 hhere),
          by simp, rfl, hframes.length_eq, ?_, rfl, by simp⟩
        rw [← hframes.length_eq]
        exact bindingAt_eq_global_iff
      · rename_i hhere
        obtain ⟨further, hfurther, rfl⟩ := Option.map_eq_some_iff.1 hfound
        obtain ⟨inner, target, outer, rfl, htarget, hinner, hdescribes⟩ := ih hfurther
        refine ⟨opening :: inner, target, outer, rfl, htarget, ?_, hdescribes.name,
          hdescribes.depth, hdescribes.binding, congrArg (· + 1) hdescribes.distance, ?_⟩
        · refine List.forall_mem_cons.2 ⟨fun hdefined => hhere ?_, hinner⟩
          exact List.contains_iff_mem.2 ((hframe.names name).2 hdefined)
        · rw [Bool.or_eq_true, hdescribes.captured, beq_iff_eq, hframe.kind]
          simp [or_comm]

theorem isSome_resolveIn_iff_defined {history : List Op} {rootBinding : Binding} {name : String}
    {frames : List Frame} {openings : List Opening}
    (hreflects : List.Forall₂ (Reflects history) frames openings) :
    (resolveIn rootBinding name frames).isSome ↔
      ∃ opening ∈ openings, Defined history opening name := by
  induction hreflects with
  | nil => simp [resolveIn]
  | @cons frame opening frames openings hframe hframes ih =>
      rw [List.exists_mem_cons_iff, ← hframe.names, ← ih, resolveIn]
      by_cases hhere : name ∈ frame.names <;> simp [hhere]

/-- What a scope says about a name, in the words of a history. -/
structure Answers (scope : Scope) (rootBinding : Binding) (history : List Op) (name : String) :
    Prop where
  /-- A definition is refused when the innermost frame has the name. -/
  define : scope.define? name = none ↔
    ∃ opening, (opened history).head? = some opening ∧ Defined history opening name
  /-- A name resolves when an open frame has it. -/
  resolves : (scope.resolve? name).isSome ↔
    ∃ opening ∈ opened history, Defined history opening name
  /-- It resolves to the innermost frame that has it. -/
  found : ∀ found, scope.resolve? name = some found →
    ∃ inner opening outer, opened history = inner ++ opening :: outer ∧
      Defined history opening name ∧ (∀ other ∈ inner, ¬ Defined history other name) ∧
      Describes found rootBinding name inner outer
  /-- It is defined here when that frame is the innermost one that is open. -/
  here : scope.isDefinedHere name = true ↔
    ∃ found, scope.resolve? name = some found ∧
      found.symbol.depth + 1 = (opened history).length

theorem defined_head_iff {history : List Op} {scope : Scope} {name : String}
    (hreflects : List.Forall₂ (Reflects history) scope.frames (opened history)) :
    name ∈ scope.current.names ↔
      ∃ opening, (opened history).head? = some opening ∧ Defined history opening name := by
  obtain ⟨opening, around, hcurrent, -, hopened⟩ := List.forall₂_cons_left_iff.1 hreflects
  rw [hcurrent.names, hopened]
  simp

/-- The innermost frame has the name when no frame stands inside the one that is found. -/
theorem isDefinedHere_iff_depth {history : List Op} {scope : Scope}
    (hreflects : List.Forall₂ (Reflects history) scope.frames (opened history)) (name : String) :
    scope.isDefinedHere name = true ↔
      ∃ found, scope.resolve? name = some found ∧
        found.symbol.depth + 1 = (opened history).length := by
  rw [isDefinedHere_eq_true_iff, defined_head_iff hreflects]
  constructor
  · rintro ⟨opening, hhead, hdefined⟩
    have hsome : (scope.resolve? name).isSome :=
      (isSome_resolveIn_iff_defined hreflects).2 ⟨opening, List.mem_of_head? hhead, hdefined⟩
    obtain ⟨found, hfound⟩ := Option.isSome_iff_exists.1 hsome
    obtain ⟨inner, target, outer, hopened, -, hinner, hdescribes⟩ :=
      exists_describes_resolveIn hreflects hfound
    refine ⟨found, hfound, ?_⟩
    cases inner with
    | nil => rw [hdescribes.depth, hopened, List.nil_append, List.length_cons]
    | cons first inner =>
        rw [hopened, List.cons_append, List.head?_cons, Option.some.injEq] at hhead
        exact absurd (hhead ▸ hdefined) (hinner first List.mem_cons_self)
  · rintro ⟨found, hfound, hdepth⟩
    obtain ⟨inner, target, outer, hopened, htarget, -, hdescribes⟩ :=
      exists_describes_resolveIn hreflects hfound
    rw [hdescribes.depth, hopened, List.length_append, List.length_cons] at hdepth
    obtain rfl : inner = [] := List.eq_nil_of_length_eq_zero (by omega)
    exact ⟨target, by rw [hopened]; rfl, htarget⟩

theorem answers_of_reflects {history : List Op} {scope : Scope}
    (hreflects : List.Forall₂ (Reflects history) scope.frames (opened history)) (name : String) :
    scope.Answers scope.rootBinding history name where
  define := define?_eq_none_iff.trans (defined_head_iff hreflects)
  resolves := isSome_resolveIn_iff_defined hreflects
  found _ := exists_describes_resolveIn hreflects
  here := isDefinedHere_iff_depth hreflects name

/-- Of the definitions of a name in a frame, one succeeded. -/
theorem defined_iff_exists_isSome (rootBinding : Binding) {history : List Op} {frame : Opening}
    {name : String} :
    Defined history frame name ↔
      ∃ before after, history = before ++ .define name :: after ∧
        (opened before).head? = some frame ∧
        ((replay { rootBinding } before).define? name).isSome := by
  constructor
  · intro hdefined
    induction hlength : history.length using Nat.strongRecOn generalizing history with
    | ind length ih =>
        obtain ⟨before, after, rfl, hframe⟩ := hdefined
        cases hdefine : (replay { rootBinding } before).define? name with
        | some result => exact ⟨before, after, rfl, hframe, by rw [hdefine]; rfl⟩
        | none =>
            -- A refusal means that the frame has the name from an earlier definition.
            obtain ⟨opening, hhead, hhas⟩ :=
              (answers_of_reflects (reflects_replay rootBinding before) name).define.1 hdefine
            obtain rfl := Option.some.inj (hhead.symm.trans hframe)
            have hshorter : before.length < length := by simp [← hlength]
            obtain ⟨first, rest, rfl, hfirst, hsome⟩ := ih _ hshorter hhas rfl
            exact ⟨first, rest ++ .define name :: after, by simp, hfirst, hsome⟩
  · rintro ⟨before, after, hhistory, hframe, -⟩
    exact ⟨before, after, hhistory, hframe⟩

/-- A scope answers as its history says: about every name, after every sequence of operations.  A
definition that is refused and a frame that is closed again leave the scope as it was. -/
theorem answers_replay (rootBinding : Binding) (history : List Op) (name : String) :
    (replay { rootBinding } history).Answers rootBinding history name ∧
    (∀ frame, Defined history frame name ↔
      ∃ before after, history = before ++ .define name :: after ∧
        (opened before).head? = some frame ∧
        ((replay { rootBinding } before).define? name).isSome) ∧
    ((replay { rootBinding } history).define? name = none → ∀ later,
      replay { rootBinding } (history ++ .define name :: later) =
        replay { rootBinding } (history ++ later)) ∧
    (∀ kind body, Nested body → ∀ later,
      replay { rootBinding } (history ++ (.fork kind :: body ++ [.leave]) ++ later) =
        replay { rootBinding } (history ++ later)) := by
  refine ⟨?_, fun frame => defined_iff_exists_isSome rootBinding, fun hnone later => ?_,
    fun kind body hbody later => ?_⟩
  · have hanswers := answers_of_reflects (reflects_replay rootBinding history) name
    rwa [rootBinding_replay] at hanswers
  · rw [replay_append, replay_cons, apply, hnone, replay_append]
    rfl
  · rw [replay_append, replay_append, hbody.replay_segment, replay_append]

/-- A name that is shadowed, a block that is closed, leaves with only the root frame open and a
block that is opened once more. -/
def shadowing : List Op :=
  [.define "x", .fork .block, .define "x", .leave, .leave, .leave, .define "x",
    .fork .function, .fork .block, .define "y"]

theorem answers_replay_shadowing :
    (replay { rootBinding := .global } shadowing).Answers .global shadowing "x" ∧
    (replay { rootBinding := .global } shadowing).resolve? "x" =
      some ⟨⟨"x", .global, 0⟩, 2, true⟩ ∧
    opened shadowing = [⟨.block, 9⟩, ⟨.function, 8⟩, ⟨.function, 0⟩] ∧
    (replay { rootBinding := .global } shadowing).define? "y" = none ∧
    (∀ later, replay { rootBinding := .global } (shadowing ++ .define "y" :: later) =
      replay { rootBinding := .global } (shadowing ++ later)) ∧
    Nested [.define "x", .fork .block, .leave] ∧
    ∀ later, replay { rootBinding := .global }
        (shadowing ++ [.fork .function, .define "x", .fork .block, .leave, .leave] ++ later) =
      replay { rootBinding := .global } (shadowing ++ later) := by
  have hnested : Nested [.define "x", .fork .block, .leave] :=
    .define "x" (.fork .block .nil .nil)
  have hx := answers_replay .global shadowing "x"
  have hy := answers_replay .global shadowing "y"
  exact ⟨hx.1, by decide, by decide, by decide, hy.2.2.1 (by decide), hnested,
    hx.2.2.2 .function _ hnested⟩

end LuaBackend.Scope
