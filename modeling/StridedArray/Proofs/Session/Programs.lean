import Mathlib.Data.List.Dedup
import StridedArray.Proofs.Session.Operations

/-! # Programs of array operations

A program makes arrays, reads them and disposes of them, one statement after the other, and goes on when a
statement fails. Whatever it does, the buffers that are in use are those of the arrays that it has, those
that were in use before, and those that were lost: buffers whose array could not be made because the extents
of the result make no shape.

* `Operation`, `Statement`, `Course` — programs, and where one is: the session, the arrays that the program
  was answered and did not dispose of, and the number of buffers that may be lost;
* `Accounted`, `Accounted.step`, `Accounted.run` — the accounts are kept by every statement;
* `Lawful` — what that means for the counts of references and of buffers in use;
* `Course.run_accounted` — the law of references. -/

namespace StridedArray

namespace Session

/-! ## Statements -/

/-- An operation on arrays: it makes one, or reads some. -/
inductive Operation
  | upload (data : Operand) (type : Option SourceType) (kind : KindRequest) (executor : Datum)
  | fill (value : Int) (shape : Datum) (kind : KindRequest) (executor : Datum)
  | fillLike (value : Int) (a : TensorRef) (kind : KindRequest)
  | share (a : TensorRef)
  | reshape (a : TensorRef) (shape : Datum)
  | broadcastTo (a : TensorRef) (shape : Datum)
  | permute (a : TensorRef) (order : Datum)
  | transpose (a : TensorRef)
  | moveAxis (a : TensorRef) (source target : Datum)
  | pad (a : TensorRef) (widths : Datum)
  | shrink (a : TensorRef) (ranges : Datum)
  | flip (a : TensorRef) (axes : Datum)
  | index (a : TensorRef) (given : Datum)
  | add (a b : Operand)
  | sub (a b : Operand)
  | mul (a b : Operand)
  | less (a b : Operand)
  | greater (a b : Operand)
  | maximum (a b : Operand)
  | negate (a : TensorRef)
  | sin (a : TensorRef)
  | cos (a : TensorRef)
  | cast (kind : KindRequest) (a : TensorRef)
  | compact (a : TensorRef)
  | choose (condition a b : Operand)
  | reduce (op : Reduction) (a : TensorRef) (axes : Datum) (keep : Bool)
  | convolve (input filter : TensorRef) (o : ConvOptions)
  | inputGradient (cotangent filter : TensorRef) (input : Datum) (o : ConvOptions)
  | filterGradient (input cotangent : TensorRef) (filter : Datum) (o : ConvOptions)
  | contents (a : TensorRef)
  | nested (a : TensorRef)
  | rawContents (a : TensorRef)
  | plainText (a : TensorRef)
  | text (a : TensorRef)
  | describe (a : TensorRef)
  | sameBuffer (a b : TensorRef)
  | liveBuffers (a : TensorRef)

def making (a : Action TensorRef) : Action (Option TensorRef) := some <$> a

def reading {α : Type} (a : Action α) : Action (Option TensorRef) := (fun _ => none) <$> a

def Operation.run [Room] : Operation → Action (Option TensorRef)
  | .upload data type kind executor => making (Session.upload data type kind executor)
  | .fill value shape kind executor => making (Session.fill value shape kind executor)
  | .fillLike value a kind => making (Session.fillLike value a kind)
  | .share a => making (Session.share a)
  | .reshape a shape => making (Session.reshape a shape)
  | .broadcastTo a shape => making (Session.broadcastTo a shape)
  | .permute a order => making (Session.permute a order)
  | .transpose a => making (Session.transpose a)
  | .moveAxis a source target => making (Session.moveAxis a source target)
  | .pad a widths => making (Session.pad a widths)
  | .shrink a ranges => making (Session.shrink a ranges)
  | .flip a axes => making (Session.flip a axes)
  | .index a given => making (Session.index a given)
  | .add a b => making (Session.add a b)
  | .sub a b => making (Session.sub a b)
  | .mul a b => making (Session.mul a b)
  | .less a b => making (Session.less a b)
  | .greater a b => making (Session.greater a b)
  | .maximum a b => making (Session.maximum a b)
  | .negate a => making (Session.negate a)
  | .sin a => making (Session.sin a)
  | .cos a => making (Session.cos a)
  | .cast kind a => making (do Session.cast (← ofResult kind.resolve) a)
  | .compact a => making (Session.compact a)
  | .choose condition a b => making (Session.choose condition a b)
  | .reduce op a axes keep => making (Session.reduce op a axes keep)
  | .convolve input filter o => making (Session.convolve input filter o)
  | .inputGradient cotangent filter input o => making (Session.inputGradient cotangent filter input o)
  | .filterGradient input cotangent filter o => making (Session.filterGradient input cotangent filter o)
  | .contents a => reading (Session.contents a)
  | .nested a => reading (Session.nested a)
  | .rawContents a => reading (Session.rawContents a)
  | .plainText a => reading (Session.plainText a)
  | .text a => reading (Session.text a)
  | .describe a => reading (Session.describe a)
  | .sameBuffer a b => reading (Session.sameBuffer a b)
  | .liveBuffers a => reading (Session.liveBuffers a)

inductive Statement
  | operate (op : Operation)
  | dispose (a : TensorRef)

namespace Statement

def run [Room] : Statement → Action (Option TensorRef)
  | operate op => op.run
  | dispose a => reading (Session.dispose a)

def heldAfter : Statement → Except Failure (Option TensorRef) → List TensorRef → List TensorRef
  | operate _, .ok made, held => made.toList ++ held
  | dispose a, .ok _, held => held.erase a
  | _, .error _, held => held

end Statement

def lossOf {α : Type} : Except Failure α → Nat
  | .ok _ => 0
  | .error e => e.loss

structure Course where
  session : Session
  /-- The arrays that were answered and not disposed of, the last one first. -/
  held : List TensorRef := []
  /-- The number of buffers that were lost at most. -/
  lost : Nat := 0

namespace Course

def step [Room] (c : Course) (statement : Statement) : Course :=
  let (answer, session) := statement.run.run.run c.session
  ⟨session, statement.heldAfter answer c.held, c.lost + lossOf answer⟩

/-- A program. A failure ends a statement, but not the program. -/
def run [Room] (c : Course) (program : List Statement) : Course := program.foldl step c

def close [Room] (c : Course) : Course := c.run (c.held.map .dispose)

/-- The buffers that the arrays of a program are over, one for every array. -/
def handles (c : Course) : List Handle :=
  c.held.filterMap fun r => (c.session.tensors[r.number]?).map Tensor.handle

end Course

/-! ## What a statement does -/

section Statements

variable {α : Type} {s s' : Session} {before : Handle → Nat} {strays : List Handle} {r : TensorRef}
  {t : Tensor} {c : Course}

theorem keeps_making {a : Action TensorRef} (keeps : Keeps some a) : Keeps id (making a) :=
  (show Keeps (id ∘ some) a from keeps).map

theorem keeps_reading {a : Action α} (keeps : Keeps noArray a) : Keeps id (reading a) :=
  (show Keeps (id ∘ fun _ => none) a from keeps).map

theorem keeps_request [Room] (a : TensorRef) (m : MoveRequest) : Keeps some (request a m) := keeps_moved a _

theorem quiet_sameBuffer (a b : TensorRef) : Quiet (sameBuffer a b) :=
  (quiet_live a).bind fun _ => (quiet_live b).bind fun _ => quiet_pure _

theorem quiet_liveBuffers (a : TensorRef) : Quiet (liveBuffers a) :=
  (quiet_find a).bind fun _ => (quiet_executor _).bind fun _ => quiet_pure _

theorem Operation.keeps [Room] (op : Operation) : Keeps id op.run := by
  cases op with
  | upload data type kind executor => exact keeps_making (keeps_upload data type kind executor)
  | fill value shape kind executor => exact keeps_making (keeps_fill_value value shape kind executor)
  | fillLike value a kind => exact keeps_making (keeps_fillLike value a kind)
  | share a => exact keeps_making (keeps_share a)
  | reshape | broadcastTo | transpose | index => exact keeps_making (keeps_moved _ _)
  | permute | moveAxis | pad | shrink | flip => exact keeps_making (keeps_request _ _)
  | add | sub | mul => exact keeps_making (keeps_eitherOrder _ _ _)
  | less a b => exact keeps_making (keeps_less a b)
  | greater a b => exact keeps_making (keeps_greater a b)
  | maximum a b => exact keeps_making (keeps_maximum a b)
  | negate | sin | cos | compact => exact keeps_making (keeps_unary _ _)
  | cast kind a => exact keeps_making ((quiet_ofResult _).bind_keeps fun _ => keeps_unary _ a)
  | choose condition a b => exact keeps_making (keeps_choose condition a b)
  | reduce op a axes keep => exact keeps_making (keeps_reduce op a axes keep)
  | convolve input filter o => exact keeps_making (keeps_convolve input filter o)
  | inputGradient cotangent filter input o =>
    exact keeps_making (keeps_inputGradient cotangent filter input o)
  | filterGradient input cotangent filter o =>
    exact keeps_making (keeps_filterGradient input cotangent filter o)
  | contents a => exact keeps_reading (keeps_contents a)
  | nested a => exact keeps_reading (keeps_nested a)
  | rawContents a => exact keeps_reading (quiet_rawContents a).keeps
  | plainText a => exact keeps_reading (keeps_plainText a)
  | text a => exact keeps_reading (keeps_text a)
  | describe a => exact keeps_reading (quiet_describe a).keeps
  | sameBuffer a b => exact keeps_reading (quiet_sameBuffer a b).keeps
  | liveBuffers a => exact keeps_reading (quiet_liveBuffers a).keeps

theorem Change.held_iff {made : Option TensorRef} (change : s.Change s' made) :
    (∃ t, s'.Held r t) ↔ made = some r ∨ ∃ t, s.Held r t := by
  constructor
  · rintro ⟨t, held⟩
    rcases Nat.lt_or_ge r.number s.tensors.size with old | new
    · exact .inr ⟨t, (change.kept _ old).symm.trans held.1, held.2⟩
    · exact .inl (change.only new held)
  · rintro (new | ⟨t, held⟩)
    · exact (change.made new).2
    · exact ⟨t, (change.kept _ held.bound).trans held.1, held.2⟩

theorem held_without_iff (a : TensorRef) (tensors : s'.tensors = without s.tensors a) :
    (∃ t, s'.Held r t) ↔ r ≠ a ∧ ∃ t, s.Held r t := by
  have number : a.number = r.number ↔ a = r := by
    cases a
    cases r
    simp
  unfold Held
  rw [tensors, without, Array.getElem?_modify]
  by_cases same : a = r
  · subst same
    simp
  · simp [number, same, Ne.symm same]

theorem dispose_refused (gone : ¬ ∃ t, s.Held r t) : ∃ e, (dispose r).run.run s = (.error e, s) := by
  cases known : s.tensors[r.number]? with
  | none =>
    have missing : (live r).run.run s = (.error .unbound, s) := by
      refine run_bind_error ((run_bind_ok (runs_get s)).trans ?_)
      rw [known]
      rfl
    exact ⟨_, run_bind_error missing⟩
  | some t =>
    have disposed : t.disposed = true := by
      by_contra live
      exact gone ⟨t, known, by simpa using live⟩
    have refused : (live r).run.run s = (.error (.lifetime .disposed t.handle.slot), s) := by
      refine (run_bind_ok (runs_find known)).trans (run_bind_error ?_)
      unfold requireLive
      rw [if_pos disposed]
      rfl
    exact ⟨_, run_bind_error refused⟩

end Statements

/-! ## Accounts of a program -/

namespace Course

variable {before : Handle → Nat} {strays : List Handle} {c : Course} {r : TensorRef}

/-- The references are accounted for, and the program has exactly the arrays that were not disposed of. -/
structure Accounted (before : Handle → Nat) (strays : List Handle) (c : Course) : Prop where
  balanced : Balanced before strays c.session
  nodup : c.held.Nodup
  held : ∀ r, r ∈ c.held ↔ ∃ t, c.session.Held r t

theorem Accounted.operate [Room] (accounted : c.Accounted before strays) (op : Operation) :
    ∃ lost : List Handle, lost.length + c.lost ≤ (c.step (.operate op)).lost
      ∧ (c.step (.operate op)).Accounted before (lost ++ strays) := by
  have lands := op.keeps.lands accounted.balanced
  unfold step Statement.run
  cases ran : op.run.run.run c.session with
  | mk answer s =>
    rw [ran] at lands
    cases answer with
    | ok made =>
      obtain ⟨balanced, change⟩ := lands.ok rfl
      refine ⟨[], Nat.le_of_eq (Nat.zero_add _), balanced, ?_, fun r => ?_⟩
      -- A new array has a number that no array had before.
      · refine List.nodup_append.2 ⟨by cases made <;> simp, accounted.nodup, ?_⟩
        rintro new member _ old rfl
        obtain ⟨t, held⟩ := (accounted.held new).1 old
        have later := (change.made (Option.mem_toList.1 member)).1
        exact absurd held.bound (Nat.not_lt.2 later)
      · rw [change.held_iff, ← accounted.held]
        simp [Statement.heldAfter]
    | error e =>
      obtain ⟨change, lost, few, balanced⟩ := lands.error rfl
      refine ⟨lost, ?_, balanced, accounted.nodup, fun r => ?_⟩
      · rw [Nat.add_comm]
        exact Nat.add_le_add_left few _
      · rw [change.held_iff]
        simpa [Statement.heldAfter] using accounted.held r

theorem Accounted.dispose_held [Room] (accounted : c.Accounted before strays) (member : r ∈ c.held) :
    (c.step (.dispose r)).Accounted before strays ∧ (c.step (.dispose r)).held = c.held.erase r
      ∧ (c.step (.dispose r)).lost = c.lost := by
  obtain ⟨t, held⟩ := (accounted.held r).1 member
  obtain ⟨s, ran, tensors, balanced⟩ := accounted.balanced.dispose held
  have whole : (Statement.dispose r).run.run.run c.session = (.ok none, s) := run_bind_ok ran
  unfold step
  rw [whole]
  refine ⟨⟨balanced, accounted.nodup.erase r, fun a => ?_⟩, rfl, rfl⟩
  rw [held_without_iff r tensors, ← accounted.held]
  exact accounted.nodup.mem_erase_iff

theorem Accounted.step [Room] (accounted : c.Accounted before strays) (statement : Statement) :
    ∃ lost : List Handle, lost.length + c.lost ≤ (c.step statement).lost
      ∧ (c.step statement).Accounted before (lost ++ strays) := by
  cases statement with
  | operate op => exact accounted.operate op
  | dispose r =>
    by_cases member : r ∈ c.held
    · obtain ⟨later, _, lost⟩ := accounted.dispose_held member
      exact ⟨[], by rw [lost]; exact Nat.le_of_eq (Nat.zero_add _), later⟩
    · -- Whatever is not an array of the program was disposed of, or never was there.
      obtain ⟨e, refused⟩ := dispose_refused fun held => member ((accounted.held r).2 held)
      have whole : (Statement.dispose r).run.run.run c.session = (.error e, c.session) :=
        run_bind_error refused
      refine ⟨[], ?_, ?_⟩
      · unfold Course.step
        rw [whole]
        show 0 + c.lost ≤ c.lost + e.loss
        omega
      · unfold Course.step
        rw [whole]
        exact ⟨accounted.balanced, accounted.nodup, accounted.held⟩

theorem Accounted.run [Room] (accounted : c.Accounted before strays) (program : List Statement) :
    ∃ lost : List Handle, lost.length + c.lost ≤ (c.run program).lost
      ∧ (c.run program).Accounted before (lost ++ strays) := by
  induction program generalizing c strays with
  | nil => exact ⟨[], Nat.le_of_eq (Nat.zero_add _), accounted⟩
  | cons statement program inductionHypothesis =>
    obtain ⟨first, few, later⟩ := accounted.step statement
    obtain ⟨rest, more, last⟩ := inductionHypothesis later
    refine ⟨rest ++ first, ?_, ?_⟩
    · rw [List.length_append]
      show _ ≤ ((c.step statement).run program).lost
      omega
    · rw [List.append_assoc]
      exact last

theorem Accounted.close [Room] (accounted : c.Accounted before strays) :
    c.close.Accounted before strays ∧ c.close.held = [] ∧ c.close.lost = c.lost := by
  -- By induction on the arrays that are left: every one that is disposed of is the first one of them.
  have all : ∀ (held : List TensorRef) (c : Course), c.Accounted before strays → c.held = held →
      (c.run (held.map .dispose)).Accounted before strays ∧ (c.run (held.map .dispose)).held = []
        ∧ (c.run (held.map .dispose)).lost = c.lost := by
    intro held
    induction held with
    | nil => exact fun c accounted known => ⟨accounted, known, rfl⟩
    | cons r rest inductionHypothesis =>
      intro c accounted known
      obtain ⟨later, left, lost⟩ := accounted.dispose_held (known ▸ List.mem_cons_self ..)
      rw [known, List.erase_cons_head] at left
      rw [← lost]
      exact inductionHypothesis _ later left
  exact all c.held c accounted rfl

/-! ## The law of references -/

theorem Accounted.count_handles (accounted : c.Accounted before strays) (h : Handle) :
    c.handles.count h = c.session.holders h := by
  let named (r : TensorRef) : Bool := (c.session.tensors[r.number]?).any (uses h)
  -- Both sides count the numbers of arrays over the buffer, in different orders.
  have entries : c.session.tensors.toList.map some
      = (List.range c.session.tensors.size).map fun n => c.session.tensors[n]? := by
    apply List.ext_getElem (by simp)
    intro n low high
    have bound : n < c.session.tensors.size := by simpa using low
    simp [bound]
  have existing : c.session.holders h
      = (((List.range c.session.tensors.size).map TensorRef.mk).filter named).length := by
    unfold holders
    have lifted : uses h = Option.any (uses h) ∘ some := rfl
    rw [← List.countP_eq_length_filter, lifted, ← List.countP_map, entries, List.countP_map, List.countP_map]
    rfl
  have known : c.handles.count h = (c.held.filter named).length := by
    unfold handles
    rw [← List.countP_eq_length_filter, List.count, List.countP_filterMap]
    refine List.countP_congr fun r member => ?_
    obtain ⟨t, known, live⟩ := (accounted.held r).1 member
    simp [named, known, uses, live]
  rw [existing, known]
  refine (List.Perm.length_eq ?_)
  refine (List.perm_ext_iff_of_nodup (accounted.nodup.filter _)
    ((List.nodup_range.map fun a b same => by cases same; rfl).filter _)).2 fun r => ?_
  rw [List.mem_filter, List.mem_filter]
  refine and_congr_left fun shares => ?_
  obtain ⟨t, known, used⟩ := (Option.any_eq_true _ _).1 shares
  obtain ⟨bound, _⟩ := Array.getElem?_eq_some_iff.1 known
  refine iff_of_true ((accounted.held r).2 ⟨t, known, (uses_iff.1 used).1⟩) ?_
  exact List.mem_map.2 ⟨r.number, List.mem_range.2 bound, rfl⟩

/-- What the arrays of a program have to do with the buffers in use. -/
structure Lawful (start : Session) (strays : List Handle) (c : Course) : Prop where
  /-- The program has exactly those arrays that exist and were not disposed of. -/
  held : c.held.Nodup ∧ ∀ r, r ∈ c.held ↔ ∃ t, c.session.Held r t
  /-- Every array has one reference to its buffer, and so has every stray one. -/
  references : ∀ h, c.session.references h = start.references h + c.handles.count h + strays.count h
  /-- The buffers in use are those of arrays, counted once, and the stray ones. -/
  live : ∀ owner, c.session.liveCount owner = start.liveCount owner
    + c.handles.dedup.countP (fun h => decide (h.owner = owner))
    + strays.countP (fun h => decide (h.owner = owner))
  /-- Arrays are over new buffers. -/
  fresh : ∀ h ∈ c.handles, start.references h = 0
  /-- Stray buffers are new, and no array is over them. -/
  astray : strays.Nodup ∧ ∀ h ∈ strays, start.references h = 0 ∧ h ∉ c.handles
  /-- There are no more of them than failures to shape a result. -/
  few : strays.length ≤ c.lost

theorem Accounted.lawful {start : Session} (accounted : c.Accounted start.references strays)
    (orderly : start.Orderly) (few : strays.length ≤ c.lost) : c.Lawful start strays := by
  have counted := accounted.count_handles
  have fresh : ∀ h ∈ c.handles, start.references h = 0 := fun h member =>
    accounted.balanced.apart h (by rw [← counted]; exact List.count_pos_iff.2 member)
  have astray : ∀ h ∈ strays, start.references h = 0 ∧ h ∉ c.handles := fun h member => by
    obtain ⟨new, unused⟩ := accounted.balanced.alone h member
    rw [← counted] at unused
    exact ⟨new, List.count_eq_zero.1 unused⟩
  have references : ∀ h, c.session.references h
      = start.references h + c.handles.count h + strays.count h := fun h => by
    rw [counted]
    exact accounted.balanced.references h
  refine ⟨⟨accounted.nodup, accounted.held⟩, references, fun owner => ?_, fresh,
    ⟨accounted.balanced.nodup, astray⟩, few⟩
  let here (h : Handle) : Bool := decide (h.owner = owner)
  -- The buffers in use fall into three kinds, no two of which have one in common.
  have apart : (start.inUse owner ++ c.handles.dedup.filter here ++ strays.filter here).Nodup := by
    refine List.nodup_append.2 ⟨List.nodup_append.2 ⟨nodup_inUse .., (List.nodup_dedup _).filter _, ?_⟩,
      accounted.balanced.nodup.filter _, ?_⟩
    · rintro h old _ new rfl
      have none := fresh h (List.mem_dedup.1 (List.mem_filter.1 new).1)
      exact absurd ((orderly.mem_inUse).1 old).2 (by omega)
    · rintro h other _ stray rfl
      obtain ⟨none, unused⟩ := astray h (List.mem_filter.1 stray).1
      rcases List.mem_append.1 other with old | new
      · exact absurd ((orderly.mem_inUse).1 old).2 (by omega)
      · exact unused (List.mem_dedup.1 (List.mem_filter.1 new).1)
  have same : (c.session.inUse owner).Perm
      (start.inUse owner ++ c.handles.dedup.filter here ++ strays.filter here) := by
    refine (List.perm_ext_iff_of_nodup (nodup_inUse ..) apart).2 fun h => ?_
    rw [accounted.balanced.orderly.mem_inUse, references, List.mem_append, List.mem_append, orderly.mem_inUse,
      List.mem_filter, List.mem_filter, List.mem_dedup, ← List.count_pos_iff, ← List.count_pos_iff]
    simp only [here, decide_eq_true_eq]
    omega
  have sizes := same.length_eq
  rw [List.length_append, List.length_append, ← List.countP_eq_length_filter,
    ← List.countP_eq_length_filter, accounted.balanced.orderly.length_inUse, orderly.length_inUse] at sizes
  exact sizes

/-- The law of references. Whatever a program does with arrays, and however its statements fail, every
    reference that was not there before belongs to one of its arrays, or to a buffer that was lost with a
    result whose extents make no shape. Nothing else is in use, so if the program ends with disposing of
    its arrays then only such buffers are left. -/
theorem run_accounted [Room] (start : Session) (orderly : start.Orderly) (bare : start.tensors = #[])
    (program : List Statement) :
    ∃ strays : List Handle, (run ⟨start, [], 0⟩ program).Lawful start strays
      ∧ (run ⟨start, [], 0⟩ program).close.Lawful start strays
      ∧ (run ⟨start, [], 0⟩ program).close.held = [] := by
  have nobody : ∀ (r : TensorRef) (t : Tensor), ¬ start.Held r t := by
    rintro r t ⟨known, _⟩
    rw [bare] at known
    simp at known
  have unused : ∀ h, start.holders h = 0 := fun h => by
    unfold holders
    rw [bare]
    rfl
  have first : Accounted start.references [] ⟨start, [], 0⟩ := by
    refine ⟨⟨orderly, fun h => ?_, by simp, List.nodup_nil, fun h used => ?_⟩, List.nodup_nil, fun r => ?_⟩
    · rw [unused]
      rfl
    · rw [unused] at used
      cases used
    · exact iff_of_false (by simp) fun ⟨t, held⟩ => nobody r t held
  obtain ⟨strays, few, accounted⟩ := first.run program
  rw [List.append_nil] at accounted
  obtain ⟨closed, none, lost⟩ := accounted.close
  exact ⟨strays, accounted.lawful orderly few, closed.lawful orderly (by rw [lost]; exact few), none⟩

/-- A copy of an array without elements, seen through a negative extent. -/
def negativeExtent : List Statement :=
  [.operate (.fill 0 (.list [.int 0, .int 1]) (.named "int32") .none),
    .operate (.broadcastTo ⟨0⟩ (.list [.int 0, .int (-3)])), .operate (.compact ⟨1⟩)]

/-- The copy cannot be made, but its buffer stays in use, also when both arrays are gone. -/
theorem run_accounted_negativeExtent :
    (run ⟨{}, [], 0⟩ negativeExtent).handles = [⟨0, 0⟩, ⟨0, 0⟩]
      ∧ (run ⟨{}, [], 0⟩ negativeExtent).lost = 1
      ∧ (run ⟨{}, [], 0⟩ negativeExtent).session.liveCount 0 = 2
      ∧ (run ⟨{}, [], 0⟩ negativeExtent).close.session.liveCount 0 = 1
      ∧ ∃ strays : List Handle, (run ⟨{}, [], 0⟩ negativeExtent).Lawful {} strays
        ∧ (run ⟨{}, [], 0⟩ negativeExtent).close.Lawful {} strays
        ∧ (run ⟨{}, [], 0⟩ negativeExtent).close.held = [] :=
  ⟨by decide +kernel, by decide +kernel, by decide +kernel, by decide +kernel,
    run_accounted {} (fun i x found => by simp at found) rfl negativeExtent⟩

end Course

end Session

end StridedArray
