import StridedArray.Kernel
import StridedArray.Proofs.Outcome

/-! # Accepted kernels

When a kernel of one expression is accepted, in terms of the nodes of the expression.

* `specials_spec` — the variables of an expression are those of its nodes;
* `Bound`, `foldlM_planSpecial` — only the two indices occur, the output index with one extent;
* `Readable`, `ReadableIf`, `foldlM_planRead` — reads of buffers that are large enough;
* `Expr.idle` — whether there is nothing to be evaluated;
* `plan_readable`, `plan_single` — the kernel. -/

namespace StridedArray

namespace Expr

/-! ## Variables -/

theorem mem_setEntry {name : String} {n : Int} {entries : List (String × Int)} {entry : String × Int}
    (member : entry ∈ setEntry name n entries) : entry = (name, n) ∨ entry ∈ entries := by
  induction entries with
  | nil => exact .inl (List.mem_singleton.1 member)
  | cons first entries inductionHypothesis =>
    unfold setEntry at member
    split at member
    · rcases List.mem_cons.1 member with rfl | member
      · exact .inl rfl
      · exact .inr (List.mem_cons_of_mem _ member)
    · rcases List.mem_cons.1 member with rfl | member
      · exact .inr (List.mem_cons_self ..)
      · exact (inductionHypothesis member).imp_right (List.mem_cons_of_mem _)

theorem setEntry_named {name : String} {n : Int} (entries : List (String × Int)) :
    (name, n) ∈ setEntry name n entries := by
  induction entries with
  | nil => exact List.mem_singleton_self _
  | cons first entries inductionHypothesis =>
    unfold setEntry
    split
    · exact List.mem_cons_self ..
    · exact List.mem_cons_of_mem _ inductionHypothesis

theorem setEntry_keeps {name other : String} {n m : Int} {entries : List (String × Int)}
    (member : (other, m) ∈ entries) : ∃ k, (other, k) ∈ setEntry name n entries := by
  induction entries with
  | nil => cases member
  | cons first entries inductionHypothesis =>
    unfold setEntry
    rcases List.mem_cons.1 member with rfl | member
    · split
      · next same =>
        subst same
        exact ⟨n, List.mem_cons_self ..⟩
      · exact ⟨m, List.mem_cons_self ..⟩
    · split
      · exact ⟨m, List.mem_cons_of_mem _ member⟩
      · obtain ⟨k, kept⟩ := inductionHypothesis member
        exact ⟨k, List.mem_cons_of_mem _ kept⟩

def noteSpecial (known : List (String × Int)) (node : Expr) : List (String × Int) :=
  match node with
  | special name extent _ => setEntry name extent known
  | _ => known

theorem specials_eq (e : Expr) : e.specials = e.nodes.foldl noteSpecial [] := by
  unfold specials
  congr 1

theorem mem_foldl_noteSpecial {nodes : List Expr} {known : List (String × Int)} {entry : String × Int}
    (member : entry ∈ nodes.foldl noteSpecial known) :
    entry ∈ known ∨ ∃ d, special entry.1 entry.2 d ∈ nodes := by
  induction nodes generalizing known with
  | nil => exact .inl member
  | cons node nodes inductionHypothesis =>
    rcases inductionHypothesis member with before | ⟨d, later⟩
    · cases node with
      | special name extent d =>
        rcases mem_setEntry before with rfl | before
        · exact .inr ⟨d, List.mem_cons_self ..⟩
        · exact .inl before
      | _ => exact .inl before
    · exact .inr ⟨d, List.mem_cons_of_mem _ later⟩

theorem foldl_noteSpecial_keeps {nodes : List Expr} {known : List (String × Int)} {name : String} {m : Int}
    (member : (name, m) ∈ known) : ∃ k, (name, k) ∈ nodes.foldl noteSpecial known := by
  induction nodes generalizing known m with
  | nil => exact ⟨m, member⟩
  | cons node nodes inductionHypothesis =>
    cases node with
    | special other extent d =>
      obtain ⟨k, kept⟩ := @setEntry_keeps other _ extent _ _ member
      exact inductionHypothesis kept
    | _ => exact inductionHypothesis member

theorem foldl_noteSpecial_named {nodes : List Expr} {known : List (String × Int)} {name : String}
    {extent : Int} {d : Nat} (member : special name extent d ∈ nodes) :
    ∃ k, (name, k) ∈ nodes.foldl noteSpecial known := by
  induction nodes generalizing known with
  | nil => cases member
  | cons node nodes inductionHypothesis =>
    rcases List.mem_cons.1 member with rfl | member
    · exact @foldl_noteSpecial_keeps nodes (setEntry name extent known) name extent (setEntry_named known)
    · exact inductionHypothesis member

/-- The variables of an expression are those of its nodes. -/
theorem specials_spec (e : Expr) :
    (∀ entry ∈ e.specials, ∃ d, special entry.1 entry.2 d ∈ e.postorder)
      ∧ ∀ {name : String} {extent : Int} {d : Nat}, special name extent d ∈ e.postorder →
        ∃ k, (name, k) ∈ e.specials := by
  rw [specials_eq]
  constructor
  · intro entry member
    rcases mem_foldl_noteSpecial member with nothing | ⟨d, node⟩
    · cases nothing
    · exact ⟨d, mem_nodes.1 node⟩
  · intro name extent d node
    exact foldl_noteSpecial_named (mem_nodes.2 node)

end Expr

/-- Only the two indices are variables, and the output index has the given extent. -/
def Bound (n : Int) (entry : String × Int) : Prop :=
  entry = (outputIndex, n) ∨ entry.1 = reductionIndex

theorem planSpecial_ok {n : Int} {entry : String × Int} (bound : Bound n entry) {size : Option Int}
    (known : size = none ∨ size = some n) :
    planSpecial size entry = .ok (if entry.1 = outputIndex then some n else size) := by
  unfold planSpecial
  rcases bound with rfl | reduction
  · rcases known with rfl | rfl <;> simp [pure, Except.pure]
  · have other : entry.1 ≠ outputIndex := by
      rw [reduction]
      decide
    dsimp only
    rw [if_neg other, if_pos reduction, if_neg other]
    rfl

/-- The extent of the output index, if it occurs. -/
theorem foldlM_planSpecial {n : Int} {entries : List (String × Int)}
    (bound : ∀ entry ∈ entries, Bound n entry) {size : Option Int}
    (known : size = none ∨ size = some n) :
    ∃ after, entries.foldlM planSpecial size = .ok after ∧ (after = size ∨ after = some n)
      ∧ ((∃ entry ∈ entries, entry.1 = outputIndex) → after = some n) := by
  induction entries generalizing size with
  | nil => exact ⟨size, rfl, .inl rfl, by simp⟩
  | cons entry entries inductionHypothesis =>
    have first := planSpecial_ok (bound entry (List.mem_cons_self ..)) known
    have others : ∀ e ∈ entries, Bound n e := fun e member => bound e (List.mem_cons_of_mem _ member)
    rw [List.foldlM_cons, first, ok_bind]
    by_cases output : entry.1 = outputIndex
    · obtain ⟨after, ok, same, _⟩ := @inductionHypothesis others (some n) (.inr rfl)
      rw [if_pos output]
      have settled : after = some n := same.elim id id
      exact ⟨after, ok, .inr settled, fun _ => settled⟩
    · obtain ⟨after, ok, same, occurs⟩ := inductionHypothesis others known
      rw [if_neg output]
      refine ⟨after, ok, same, ?_⟩
      rintro ⟨e, member, found⟩
      rcases List.mem_cons.1 member with rfl | member
      · exact absurd found output
      · exact occurs ⟨e, member, found⟩

/-! ## Reads -/

theorem Shape.entry?_map {α β : Type} (f : α → β) (xs : List α) (k : Int) :
    Shape.entry? (xs.map f) k = (Shape.entry? xs k).map f := by
  unfold entry?
  rw [List.length_map]
  cases place? xs.length k with
  | none => rfl
  | some n => exact List.getElem?_map

/-- A node reads a slot whose buffer is large enough, as elements of the kind that the slot has. -/
structure Readable (inputSizes : List Nat) (kindOf : Int → Element) (node : Expr) (slot : Int) : Prop where
  reads : readSlot? node = some slot
  bound : slot < inputSizes.length
  kind : node.kind = kindOf slot
  enough : ∃ bytes, Shape.entry? inputSizes slot = some bytes
    ∧ ∀ evaluated, checkRead node bytes evaluated = .ok ()

/-- The same where it is known whether the expression is evaluated at all. -/
structure ReadableIf (evaluated : Bool) (inputSizes : List Nat) (kindOf : Int → Element) (node : Expr)
    (slot : Int) : Prop where
  reads : readSlot? node = some slot
  bound : slot < inputSizes.length
  kind : node.kind = kindOf slot
  enough : ∃ bytes, Shape.entry? inputSizes slot = some bytes ∧ checkRead node bytes evaluated = .ok ()

theorem Readable.whether {inputSizes : List Nat} {kindOf : Int → Element} {node : Expr} {slot : Int}
    (readable : Readable inputSizes kindOf node slot) (evaluated : Bool) :
    ReadableIf evaluated inputSizes kindOf node slot := by
  obtain ⟨reads, bound, kind, bytes, entry, checked⟩ := readable
  exact ⟨reads, bound, kind, bytes, entry, checked evaluated⟩

def Agree (kindOf : Int → Element) (kinds : List (Int × Element)) : Prop :=
  ∀ slot kind, kinds.lookup slot = some kind → kind = kindOf slot

theorem noteKind_ok {kindOf : Int → Element} {kinds : List (Int × Element)} (agree : Agree kindOf kinds)
    (slot : Int) :
    ∃ after, noteKind kinds slot (kindOf slot) = .ok after ∧ Agree kindOf after
      ∧ ∀ s, after.lookup s = if s = slot then some (kindOf slot) else kinds.lookup s := by
  unfold noteKind
  cases known : kinds.lookup slot with
  | none =>
    have noted : ∀ s, (kinds ++ [(slot, kindOf slot)]).lookup s
        = if s = slot then some (kindOf slot) else kinds.lookup s := by
      intro s
      rw [List.lookup_append]
      by_cases same : s = slot
      · subst same
        simp [known]
      · have different : (s == slot) = false := by simpa using same
        simp [List.lookup_cons, different, same]
    refine ⟨_, rfl, ?_, noted⟩
    intro s kind found
    rw [noted] at found
    split at found
    · next same => rw [← Option.some.inj found, same]
    · exact agree s kind found
  | some kind =>
    have same := agree slot kind known
    subst same
    refine ⟨kinds, if_pos rfl, agree, fun s => ?_⟩
    split
    · next same => rw [same, known]
    · rfl

theorem foldlM_planRead {inputSizes : List Nat} {kindOf : Int → Element} {evaluated : Bool}
    {nodes : List Expr} (readable : ∀ node ∈ nodes, ∃ slot, ReadableIf evaluated inputSizes kindOf node slot)
    {kinds : List (Int × Element)} (agree : Agree kindOf kinds) :
    ∃ after, nodes.foldlM (planRead inputSizes evaluated) kinds = .ok after ∧ Agree kindOf after
      ∧ (∀ slot kind, kinds.lookup slot = some kind → after.lookup slot = some kind)
      ∧ ∀ node ∈ nodes, ∀ slot, readSlot? node = some slot → after.lookup slot = some (kindOf slot) := by
  induction nodes generalizing kinds with
  | nil => exact ⟨kinds, rfl, agree, fun _ _ known => known, by simp⟩
  | cons node nodes inductionHypothesis =>
    obtain ⟨slot, reads, bound, kind, bytes, entry, checked⟩ := readable node (List.mem_cons_self ..)
    obtain ⟨noted, note, agreeNoted, lookups⟩ := noteKind_ok agree slot
    obtain ⟨after, ok, agreeAfter, keeps, later⟩ := inductionHypothesis
      (fun other member => readable other (List.mem_cons_of_mem _ member)) agreeNoted
    have first : planRead inputSizes evaluated kinds node = .ok noted := by
      unfold planRead
      simp only [reads, if_neg (show ¬ (inputSizes.length : Int) ≤ slot by omega), kind, note, ok_bind,
        entry, checked]
      rfl
    have here : noted.lookup slot = some (kindOf slot) := by rw [lookups, if_pos rfl]
    refine ⟨after, by rw [List.foldlM_cons, first, ok_bind, ok], agreeAfter, ?_, ?_⟩
    · -- Noting a slot again changes nothing, since the kinds agree.
      intro s k known
      apply keeps
      rw [lookups]
      split
      · next same =>
        subst same
        rw [agree _ _ known]
      · exact known
    · intro other member s found
      rcases List.mem_cons.1 member with rfl | member
      · rw [reads] at found
        cases found
        exact keeps _ _ here
      · exact later other member s found

/-! ## Kernels -/

theorem Expr.mem_reads {e node : Expr} : node ∈ e.reads ↔ node ∈ e.postorder ∧ node.isRead = true := by
  rw [reads, List.mem_filter, mem_nodes]

/-- Does an expression have a variable of extent zero, so that it is never evaluated? -/
def Expr.idle (e : Expr) : Bool := e.specials.any fun entry => entry.2 = 0

theorem Expr.idle_of_zero {e : Expr} {name : String} {d : Nat} (member : special name 0 d ∈ e.postorder)
    (single : ∀ k d', special name k d' ∈ e.postorder → k = 0) : e.idle = true := by
  obtain ⟨named, found⟩ := e.specials_spec
  obtain ⟨k, entry⟩ := found member
  obtain ⟨d', node⟩ := named _ entry
  exact List.any_eq_true.2 ⟨_, entry, decide_eq_true (single k d' node)⟩

/-- A kernel of one expression is accepted if its variables are bound, its reads stay inside of their
    buffers, and the result fits. Without an output index the size is that of the output. -/
theorem plan_readable {e : Expr} {inputSizes : List Nat} {outputSize : Nat} {n : Int}
    {kindOf : Int → Element} (reductions : checkReductions e false = .ok ())
    (bound : ∀ {name extent d}, Expr.special name extent d ∈ e.postorder → Bound n (name, extent))
    (size : (∃ d, Expr.special outputIndex n d ∈ e.postorder) ∨ ((outputSize / e.kind.itemSize : Nat) : Int) = n)
    (readable : ∀ node ∈ e.postorder, node.isRead = true →
      ∃ slot, ReadableIf (!e.idle) inputSizes kindOf node slot)
    (fits : n * e.kind.itemSize ≤ outputSize) :
    ∃ kinds, Kernel.plan [e] inputSizes [outputSize] = .ok ⟨[e], n, kinds⟩
      ∧ ∀ node ∈ e.postorder, node.isRead = true → ∀ slot, readSlot? node = some slot →
        kinds.lookup slot = some (kindOf slot) := by
  have specials := e.specials_spec
  obtain ⟨noted, sized, either, found⟩ := @foldlM_planSpecial n e.specials
    (fun entry member => by
      obtain ⟨d, node⟩ := specials.1 entry member
      exact bound node) none (.inl rfl)
  -- The size is what the output index says, or else what the output has room for.
  have extent : noted.getD (commonSize [e] [outputSize]) = n := by
    have common : commonSize [e] [outputSize] = outputSize / e.kind.itemSize := rfl
    rcases size with ⟨d, outputNode⟩ | output
    · obtain ⟨k, entry⟩ := specials.2 outputNode
      rw [found ⟨_, entry, rfl⟩]
      rfl
    · rcases either with rfl | rfl
      · rw [common]
        exact output
      · rfl
  obtain ⟨kinds, read, _, _, kept⟩ := @foldlM_planRead inputSizes kindOf (!e.idle) e.reads
    (fun node member => readable node (Expr.mem_reads.1 member).1 (Expr.mem_reads.1 member).2) []
    (fun _ _ known => by cases known)
  refine ⟨kinds, ?_, fun node member isRead => kept node (Expr.mem_reads.2 ⟨member, isRead⟩)⟩
  have planned : planExpr inputSizes (none, []) e = .ok (noted, kinds) := by
    unfold planExpr
    simp only [reductions, ok_bind, sized]
    exact bind_eq_ok.2 ⟨kinds, read, rfl⟩
  unfold Kernel.plan
  rw [List.foldlM_cons, planned, ok_bind]
  simp only [List.foldlM_nil, pure, Except.pure, ok_bind, extent, List.zip_cons_cons,
    List.zip_nil_right, checkOutputs]
  rw [if_neg (by omega)]
  rfl

/-- The same with an output index, for reads that may be evaluated. -/
theorem plan_single {e : Expr} {inputSizes : List Nat} {outputSize : Nat} {n : Int}
    {kindOf : Int → Element} (reductions : checkReductions e false = .ok ())
    (bound : ∀ {name extent d}, Expr.special name extent d ∈ e.postorder → Bound n (name, extent))
    (output : ∃ d, Expr.special outputIndex n d ∈ e.postorder)
    (readable : ∀ node ∈ e.postorder, node.isRead = true → ∃ slot, Readable inputSizes kindOf node slot)
    (fits : n * e.kind.itemSize ≤ outputSize) :
    ∃ kinds, Kernel.plan [e] inputSizes [outputSize] = .ok ⟨[e], n, kinds⟩
      ∧ ∀ node ∈ e.postorder, node.isRead = true → ∀ slot, readSlot? node = some slot →
        kinds.lookup slot = some (kindOf slot) := by
  refine plan_readable reductions bound (.inl output) (fun node member isRead => ?_) fits
  obtain ⟨slot, whole⟩ := readable node member isRead
  exact ⟨slot, whole.whether _⟩

end StridedArray
