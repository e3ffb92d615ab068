import StridedArray.Proofs.Executor.Commands

/-! # Counted handles over whole runs

Any number of executors are asked for anything, in any order, while their workers get on. What the
callers saw determines every count: a handle is good for as long as it was retained more often than
released, and never again afterwards.

* `Table.references`, `Tally.moved` — the references to a slot, and how a command changes them;
* `Fleet`, `Entry` — runs and what is seen of them; `handles`, `count` — read off from that;
* `Accounts` — the table of every executor agrees with what was seen; `Accounts.step`, `Accounts.run`;
* `Executor.Accepts`, `Executor.Refuses` — a handle is good, or good for nothing;
* `Fleet.run_lawful` — the law of handles. -/

namespace StridedArray

/-! ## References -/

namespace Table

variable {σ : Type} {t : Table σ} {h : Handle} {n m : Nat}

def references (t : Table σ) (n : Nat) : Nat := ((t.slot? n).map Slot.refcount).getD 0

def Positive (t : Table σ) : Prop := ∀ n s, t.slot? n = some s → 0 < s.refcount

theorem references_of_size_le (bound : t.slots.size ≤ n) : t.references n = 0 := by
  unfold references slot?
  rw [Array.getElem?_eq_none bound]
  rfl

theorem references_put (bound : n < t.slots.size) (entry : Option (Slot σ)) :
    (t.put n entry).references m
      = if m = n then (entry.map Slot.refcount).getD 0 else t.references m := by
  unfold references
  by_cases same : m = n
  · subst same
    rw [slot?_put_same bound, if_pos rfl]
  · rw [slot?_put_other same, if_neg same]

theorem Positive.put (positive : t.Positive) {entry : Option (Slot σ)}
    (counted : ∀ s, entry = some s → 0 < s.refcount) : (t.put n entry).Positive := by
  intro m s known
  by_cases same : m = n
  · subst same
    by_cases bound : m < t.slots.size
    · rw [slot?_put_same bound] at known
      exact counted s known
    · rw [slot?, put, Array.getElem?_eq_none (by simpa using bound)] at known
      cases known
  · rw [slot?_put_other same] at known
    exact positive m s known

/-- A handle of the table is good exactly while there are references to its slot. -/
theorem Positive.lookup_iff (positive : t.Positive) (owner : h.owner = t.owner) :
    (∃ s, t.lookup h = .ok s ∧ s.refcount = t.references h.slot ∧ 0 < t.references h.slot)
    ∨ (t.lookup h = .error (.lifetime .released h.slot) ∧ t.references h.slot = 0) := by
  unfold lookup references
  rw [if_neg (not_not.2 owner)]
  cases known : t.slot? h.slot with
  | none => exact .inr ⟨rfl, rfl⟩
  | some s => exact .inl ⟨s, rfl, rfl, positive _ s known⟩

theorem Positive.live_eq (positive : t.Positive) :
    t.live = ((List.range t.slots.size).filter fun n => 0 < t.references n).length := by
  have entries : t.slots.toList = (List.range t.slots.size).map t.slot? := by
    apply List.ext_getElem (by simp)
    intro n low high
    have bound : n < t.slots.size := by simpa using low
    simp [slot?, bound]
  have used : (Option.isSome ∘ t.slot?) = fun n => decide (0 < t.references n) := by
    funext n
    unfold references
    cases known : t.slot? n with
    | none => simp [known]
    | some s => simpa [known] using positive n s known
  rw [live, entries, List.countP_map, used, List.countP_eq_length_filter]

theorem lookup_foreign (foreign : h.owner ≠ t.owner) :
    t.lookup h = .error (.execution (.foreignHandle h.slot t.shown)) := if_pos foreign

end Table

def gain (c : Command) (r : Reply) (h : Handle) : Int :=
  match c, r with
  | _, .handle made => if made = h then 1 else 0
  | .retain kept, .done => if kept = h then 1 else 0
  | .release dropped, .done => if dropped = h then -1 else 0
  | _, _ => 0

/-- How a command with its answer changes the references of a table. -/
structure Moved (t : Table Unit) (c : Command) (r : Reply) (t' : Table Unit) : Prop where
  owner : t'.owner = t.owner
  shown : t'.shown = t.shown
  positive : t'.Positive
  grows : t.slots.size ≤ t'.slots.size
  /-- A new handle is one that never was before. -/
  made : ∀ h, r = .handle h → h = ⟨t.owner, t.slots.size⟩ ∧ t.slots.size < t'.slots.size
  references : ∀ n, (t'.references n : Int) = t.references n + gain c r ⟨t.owner, n⟩
  /-- Only handles that are good are counted. -/
  used : ∀ h, c = .retain h ∨ c = .release h → r = .done → h.owner = t.owner ∧ 0 < t.references h.slot

theorem references_of_lookup {t : Table Unit} {h : Handle} {s : Slot Unit} (known : t.lookup h = .ok s) :
    t.references h.slot = s.refcount := by
  unfold Table.references
  rw [Table.slot?_of_lookup known]
  rfl

theorem handle_eq {t : Table Unit} {h : Handle} {s : Slot Unit} (known : t.lookup h = .ok s) (n : Nat) :
    h = ⟨t.owner, n⟩ ↔ n = h.slot := by
  constructor
  · intro same
    rw [same]
  · rintro rfl
    rw [← Table.owner_of_lookup known]

theorem moved_refl {t : Table Unit} {c : Command} {r : Reply} (positive : t.Positive)
    (keeps : ∀ h, r ≠ .handle h ∧ ((c = .retain h ∨ c = .release h) → r ≠ .done)) : Moved t c r t where
  owner := rfl
  shown := rfl
  positive := positive
  grows := Nat.le_refl _
  made := fun h answer => absurd answer (keeps h).1
  references := by
    intro n
    have nothing : gain c r ⟨t.owner, n⟩ = 0 := by
      unfold gain
      split
      · next made => exact absurd rfl (keeps made).1
      · next kept => exact absurd rfl ((keeps kept).2 (.inl rfl))
      · next dropped => exact absurd rfl ((keeps dropped).2 (.inr rfl))
      · rfl
    rw [nothing, Int.add_zero]
  used := fun h counting answer => absurd answer ((keeps h).2 counting)

theorem Tally.moved {t t' : Table Unit} {c : Command} {r : Reply} (tally : Tally t c r t')
    (positive : t.Positive) : Moved t c r t' := by
  cases tally with
  | allocated size initial bytes =>
    refine ⟨rfl, rfl, ?_, by simp [Table.allocate], ?_, ?_, ?_⟩
    · intro n s known
      rw [Table.slot?_allocate_eq] at known
      split at known
      · cases known
        exact Nat.one_pos
      · exact positive n s known
    · rintro h ⟨⟩
      exact ⟨rfl, by simp [Table.allocate]⟩
    · intro n
      unfold Table.references
      rw [Table.slot?_allocate_eq]
      by_cases last : n = t.slots.size
      · have before := Table.references_of_size_le (t := t) (Nat.le_of_eq last.symm)
        unfold Table.references at before
        rw [before, if_pos last]
        simp [gain, Table.allocate, last]
      · rw [if_neg last]
        simp [gain, Table.allocate, Ne.symm last]
    · rintro h (other | other) <;> cases other
  | skipped size initial f =>
    have same : ∀ n, t.skip.slot? n = t.slot? n := t.slot?_skip
    refine ⟨rfl, rfl, fun n s known => positive n s (same n ▸ known), by simp [Table.skip], ?_, ?_, ?_⟩
    · rintro h ⟨⟩
    · intro n
      unfold Table.references
      rw [same]
      simp [gain]
    · rintro h (other | other) <;> cases other
  | @retained h s known =>
    have bound := Table.slot?_lt (Table.slot?_of_lookup known)
    refine ⟨rfl, rfl, positive.put ?_, by simp [Table.put], ?_, ?_, ?_⟩
    · rintro _ ⟨⟩
      exact Nat.succ_pos _
    · rintro _ ⟨⟩
    · intro n
      rw [Table.references_put bound]
      simp only [gain, handle_eq known]
      split
      · next same =>
        rw [same, references_of_lookup known]
        rfl
      · rw [Int.add_zero]
    · rintro _ (same | other) _
      · cases same
        rw [references_of_lookup known]
        exact ⟨Table.owner_of_lookup known, positive _ s (Table.slot?_of_lookup known)⟩
      · cases other
  | @released h s known =>
    have bound := Table.slot?_lt (Table.slot?_of_lookup known)
    have some : 0 < s.refcount := positive _ s (Table.slot?_of_lookup known)
    -- The last reference takes the slot out of use, so what is left in use is still referred to.
    refine ⟨rfl, rfl, positive.put ?_, by simp [Table.put], ?_, ?_, ?_⟩
    · intro left entry
      unfold Slot.released at entry
      split at entry
      · cases entry
      · next several =>
        cases entry
        show 0 < s.refcount - 1
        omega
    · rintro _ ⟨⟩
    · intro n
      rw [Table.references_put bound]
      simp only [gain, handle_eq known]
      split
      · next same =>
        rw [same, references_of_lookup known]
        unfold Slot.released
        split
        · next last => simp [last]
        · show ((s.refcount - 1 : Nat) : Int) = _
          omega
      · rw [Int.add_zero]
    · rintro _ (other | same) _
      · cases other
      · cases same
        rw [references_of_lookup known]
        exact ⟨Table.owner_of_lookup known, some⟩
  | failed _ f => exact moved_refl positive fun h => ⟨by simp, fun _ => by simp⟩
  | answered keeps =>
    refine moved_refl positive fun h => ⟨(keeps h).2.2, ?_⟩
    rintro (retain | release)
    · exact absurd retain (keeps h).1
    · exact absurd release (keeps h).2.1

/-! ## Runs -/

structure Entry where
  executor : Nat
  command : Command
  reply : Reply

abbrev Fleet := Nat → Executor

namespace Fleet

variable [Room]

def step (fleet : Fleet) (i : Nat) : Turn → List Entry × Fleet
  | .caller c => ([⟨i, c, ((fleet i).perform c).1⟩], Function.update fleet i ((fleet i).perform c).2)
  | .worker => ([], Function.update fleet i (fleet i).work)

def run (fleet : Fleet) : List (Nat × Turn) → List Entry × Fleet
  | [] => ([], fleet)
  | (i, turn) :: turns =>
    ((fleet.step i turn).1 ++ ((fleet.step i turn).2.run turns).1, ((fleet.step i turn).2.run turns).2)

end Fleet

def Executor.Fresh (i : Nat) (x : Executor) : Prop :=
  x = .host (.fresh i) ∨ ∃ device readback, x = .deferred (.fresh i device readback)

theorem Executor.Fresh.empty {i : Nat} {x : Executor} (fresh : x.Fresh i) :
    x.counts.owner = i ∧ x.counts.slots = #[] := by
  rcases fresh with host | ⟨device, readback, deferred⟩
  · rw [host]
    exact ⟨rfl, by simp [Executor.counts, Table.forget, Host.fresh]⟩
  · rw [deferred]
    exact ⟨rfl, by simp [Executor.counts, Table.forget, Deferred.fresh]⟩

/-! ## What was seen -/

namespace Entry

def made? (e : Entry) : Option Handle :=
  match e.reply with
  | .handle h => some h
  | _ => none

def retains (h : Handle) (e : Entry) : Bool :=
  match e.command, e.reply with
  | .retain kept, .done => kept = h
  | _, _ => false

def releases (h : Handle) (e : Entry) : Bool :=
  match e.command, e.reply with
  | .release dropped, .done => dropped = h
  | _, _ => false

theorem retains_iff {h : Handle} {e : Entry} :
    e.retains h = true ↔ e.command = .retain h ∧ e.reply = .done := by
  unfold retains
  split
  · next command reply => simp [command, reply]
  · next other => simpa using fun command reply => other h command reply

theorem releases_iff {h : Handle} {e : Entry} :
    e.releases h = true ↔ e.command = .release h ∧ e.reply = .done := by
  unfold releases
  split
  · next command reply => simp [command, reply]
  · next other => simpa using fun command reply => other h command reply

end Entry

def handles (history : List Entry) : List Handle := history.filterMap Entry.made?

/-- The references to a handle: the first one, those added and those taken away. -/
def count (history : List Entry) (h : Handle) : Int :=
  1 + history.countP (Entry.retains h) - history.countP (Entry.releases h)

theorem count_append (history : List Entry) (e : Entry) (h : Handle) :
    count (history ++ [e]) h
      = count history h + ((if e.retains h then 1 else 0) - (if e.releases h then 1 else 0)) := by
  unfold count
  rw [List.countP_append, List.countP_append, List.countP_singleton, List.countP_singleton]
  split <;> split <;> push_cast <;> ring

theorem gain_eq (i : Nat) (c : Command) {r : Reply} {h : Handle} (old : r ≠ .handle h) :
    gain c r h = (if (⟨i, c, r⟩ : Entry).retains h then 1 else 0)
      - (if (⟨i, c, r⟩ : Entry).releases h then 1 else 0) := by
  cases r with
  | handle made =>
    have other : made ≠ h := fun same => old (congrArg Reply.handle same)
    cases c <;> simp [gain, Entry.retains, Entry.releases, other]
  | done =>
    cases c with
    | retain kept => simp [gain, Entry.retains, Entry.releases]
    | release dropped =>
      simp only [gain, Entry.retains, Entry.releases, decide_eq_true_eq, Bool.false_eq_true, if_false]
      split <;> rfl
    | _ => rfl
  | number n => cases c <;> rfl
  | bytes bytes => cases c <;> rfl
  | failed f => cases c <;> rfl

/-- The tables of all executors agree with what was seen. -/
structure Accounts (tables : Nat → Table Unit) (history : List Entry) : Prop where
  owner : ∀ i, (tables i).owner = i
  positive : ∀ i, (tables i).Positive
  distinct : (handles history).Nodup
  made : ∀ e ∈ history, ∀ h, e.reply = .handle h → h.owner = e.executor
  /-- Handles that were returned have numbers that are used up. -/
  numbered : ∀ h ∈ handles history, h.slot < (tables h.owner).slots.size
  counted : ∀ h ∈ handles history, ((tables h.owner).references h.slot : Int) = count history h
  /-- There are no others. -/
  known : ∀ i n, 0 < (tables i).references n → ⟨i, n⟩ ∈ handles history
  unknown : ∀ h ∉ handles history,
    history.countP (Entry.retains h) = 0 ∧ history.countP (Entry.releases h) = 0

namespace Accounts

variable {tables : Nat → Table Unit} {history : List Entry}

theorem handles_append (history : List Entry) (e : Entry) :
    handles (history ++ [e]) = handles history ++ e.made?.toList := by
  have last : [e].filterMap Entry.made? = e.made?.toList := by
    rw [List.filterMap_cons]
    cases e.made? <;> rfl
  rw [handles, List.filterMap_append, last]
  rfl

theorem start (owner : ∀ i, (tables i).owner = i) (empty : ∀ i, (tables i).slots = #[]) :
    Accounts tables [] where
  owner := owner
  positive := by
    intro i n s known
    unfold Table.slot? at known
    rw [empty] at known
    cases known
  distinct := List.nodup_nil
  made := by rintro e ⟨⟩
  numbered := by rintro h ⟨⟩
  counted := by rintro h ⟨⟩
  known := by
    intro i n some
    rw [Table.references_of_size_le (by simp [empty])] at some
    exact absurd some (Nat.lt_irrefl 0)
  unknown := fun _ _ => ⟨rfl, rfl⟩

section Step

variable {i : Nat} {c : Command} {r : Reply} {t' : Table Unit} {h : Handle}

theorem mem_of_used (accounts : Accounts tables history) (moved : Moved (tables i) c r t')
    (used : (⟨i, c, r⟩ : Entry).retains h = true ∨ (⟨i, c, r⟩ : Entry).releases h = true) :
    h.owner = i ∧ h ∈ handles history := by
  rw [Entry.retains_iff, Entry.releases_iff] at used
  have counting : (c = .retain h ∨ c = .release h) ∧ r = .done := by
    rcases used with ⟨retain, answer⟩ | ⟨release, answer⟩
    · exact ⟨.inl retain, answer⟩
    · exact ⟨.inr release, answer⟩
  obtain ⟨owner, some⟩ := moved.used h counting.1 counting.2
  rw [accounts.owner] at owner
  subst owner
  exact ⟨rfl, accounts.known _ h.slot some⟩

theorem not_mem_of_made (accounts : Accounts tables history) (moved : Moved (tables i) c r t')
    (made : r = .handle h) : h ∉ handles history ∧ h = ⟨i, (tables i).slots.size⟩ := by
  have new := (moved.made h made).1
  rw [accounts.owner] at new
  refine ⟨fun member => ?_, new⟩
  have bound := accounts.numbered h member
  rw [new] at bound
  exact Nat.lt_irrefl _ bound

theorem references_step (accounts : Accounts tables history) (moved : Moved (tables i) c r t')
    (old : r ≠ .handle h) :
    ((Function.update tables i t' h.owner).references h.slot : Int)
      = (tables h.owner).references h.slot
        + (count (history ++ [⟨i, c, r⟩]) h - count history h) := by
  rw [count_append, add_sub_cancel_left, ← gain_eq i c old]
  by_cases mine : h.owner = i
  · subst mine
    rw [Function.update_self, moved.references, accounts.owner]
  · rw [Function.update_of_ne mine, gain_eq i c old]
    have unused : (⟨i, c, r⟩ : Entry).retains h = false ∧ (⟨i, c, r⟩ : Entry).releases h = false :=
      ⟨Bool.eq_false_iff.2 fun used => mine (accounts.mem_of_used moved (.inl used)).1,
        Bool.eq_false_iff.2 fun used => mine (accounts.mem_of_used moved (.inr used)).1⟩
    simp [unused.1, unused.2]

theorem step (accounts : Accounts tables history) (tally : Tally (tables i) c r t') :
    Accounts (Function.update tables i t') (history ++ [⟨i, c, r⟩]) := by
  have moved := tally.moved (accounts.positive i)
  have owner : t'.owner = i := moved.owner.trans (accounts.owner i)
  have grows : ∀ j, (tables j).slots.size ≤ (Function.update tables i t' j).slots.size := by
    intro j
    by_cases mine : j = i
    · subst mine
      rw [Function.update_self]
      exact moved.grows
    · rw [Function.update_of_ne mine]
  -- A handle of the longer history is an old one, or the one that was just returned.
  have member : ∀ h, h ∈ handles (history ++ [⟨i, c, r⟩]) ↔ h ∈ handles history ∨ r = .handle h := by
    intro h
    rw [handles_append, List.mem_append, Option.mem_toList]
    cases r <;> simp [Entry.made?]
  have fresh : ∀ {h}, h ∈ handles history → r ≠ .handle h :=
    fun old made => (accounts.not_mem_of_made moved made).1 old
  constructor
  case owner =>
    intro j
    by_cases mine : j = i
    · subst mine
      rw [Function.update_self, owner]
    · rw [Function.update_of_ne mine, accounts.owner]
  case positive =>
    intro j
    by_cases mine : j = i
    · subst mine
      rw [Function.update_self]
      exact moved.positive
    · rw [Function.update_of_ne mine]
      exact accounts.positive j
  case distinct =>
    rw [handles_append]
    cases answer : (⟨i, c, r⟩ : Entry).made? with
    | none => simpa using accounts.distinct
    | some h =>
      have made : r = .handle h := by cases r <;> simp_all [Entry.made?]
      refine List.nodup_append.2 ⟨accounts.distinct, List.nodup_singleton h, ?_⟩
      intro old oldMember new newMember same
      rw [List.mem_singleton.1 newMember] at same
      exact (accounts.not_mem_of_made moved made).1 (same ▸ oldMember)
  case made =>
    intro e seen h made
    rcases List.mem_append.1 seen with before | now
    · exact accounts.made e before h made
    · rw [List.mem_singleton.1 now] at made ⊢
      exact congrArg Handle.owner (accounts.not_mem_of_made moved made).2
  case numbered =>
    intro h isHandle
    rcases (member h).1 isHandle with old | made
    · exact Nat.lt_of_lt_of_le (accounts.numbered h old) (grows h.owner)
    · obtain ⟨same, bound⟩ := moved.made h made
      rw [accounts.owner] at same
      rw [same, Function.update_self]
      exact bound
  case counted =>
    intro h isHandle
    rcases (member h).1 isHandle with old | made
    · rw [accounts.references_step moved (fresh old), accounts.counted h old, add_sub_cancel]
    · obtain ⟨new, same⟩ := accounts.not_mem_of_made moved made
      obtain ⟨retains, releases⟩ := accounts.unknown h new
      -- A new handle starts with one reference, and nothing was seen of it before.
      have references := moved.references h.slot
      have unused : (tables i).references h.slot = 0 := Table.references_of_size_le (by rw [same])
      rw [accounts.owner, unused] at references
      have once : gain c r ⟨i, h.slot⟩ = 1 := by
        rw [show (⟨i, h.slot⟩ : Handle) = h by rw [same], made]
        cases c <;> simp [gain]
      rw [once] at references
      rw [show h.owner = i by rw [same], Function.update_self, references, count_append, count, retains,
        releases, made]
      cases c <;> simp [Entry.retains, Entry.releases]
  case known =>
    intro j n some
    rw [member]
    by_cases made : r = .handle ⟨j, n⟩
    · exact .inr made
    · -- A slot that nobody was told of has no references, and cannot be given one.
      refine .inl ?_
      by_contra unknown
      obtain ⟨retains, releases⟩ := accounts.unknown _ unknown
      have none : (tables j).references n = 0 := by
        by_contra some
        exact unknown (accounts.known j n (Nat.pos_of_ne_zero some))
      have unused : (⟨i, c, r⟩ : Entry).retains ⟨j, n⟩ = false :=
        Bool.eq_false_iff.2 fun used => unknown (accounts.mem_of_used moved (.inl used)).2
      have references := accounts.references_step moved made
      rw [count_append, unused, none] at references
      simp only [Bool.false_eq_true, if_false] at references
      split at references <;> omega
  case unknown =>
    intro h new
    rw [member, not_or] at new
    obtain ⟨retains, releases⟩ := accounts.unknown h new.1
    have unused : (⟨i, c, r⟩ : Entry).retains h = false ∧ (⟨i, c, r⟩ : Entry).releases h = false :=
      ⟨Bool.eq_false_iff.2 fun used => new.1 (accounts.mem_of_used moved (.inl used)).2,
        Bool.eq_false_iff.2 fun used => new.1 (accounts.mem_of_used moved (.inr used)).2⟩
    rw [List.countP_append, List.countP_append, retains, releases, List.countP_singleton,
      List.countP_singleton, unused.1, unused.2]
    exact ⟨rfl, rfl⟩

end Step

variable [Room]

theorem run {fleet : Fleet} (accounts : Accounts (fun i => (fleet i).counts) history)
    (turns : List (Nat × Turn)) :
    Accounts (fun i => ((fleet.run turns).2 i).counts) (history ++ (fleet.run turns).1) := by
  induction turns generalizing fleet history with
  | nil =>
    rw [Fleet.run, List.append_nil]
    exact accounts
  | cons first turns inductionHypothesis =>
    obtain ⟨i, turn⟩ := first
    have updated : ∀ y : Executor, (fun j => (Function.update fleet i y j).counts)
        = Function.update (fun j => (fleet j).counts) i y.counts := fun y =>
      funext fun j => Function.apply_update (fun _ => Executor.counts) fleet i y j
    rw [Fleet.run, ← List.append_assoc]
    apply inductionHypothesis
    cases turn with
    | caller c =>
      show Accounts (fun j => (Function.update fleet i _ j).counts) (history ++ [_])
      rw [updated]
      exact accounts.step ((fleet i).tally_perform c)
    | worker =>
      show Accounts (fun j => (Function.update fleet i _ j).counts) (history ++ [])
      have idle : (fleet i).work.counts = (fleet i).counts := by
        cases fleet i with
        | host x => rfl
        | deferred x => exact congrArg Table.forget x.table_step
      rw [updated, idle, Function.update_eq_self, List.append_nil]
      exact accounts

end Accounts

/-! ## What a handle is good for -/

namespace Executor

def Raised (f : Failure) : Executor → Prop
  | .host _ => False
  | .deferred x => ∃ n : Nat, x.outcomes[n]? = some (some f)

variable [Room]

/-- The handle is good for everything, and has so many references. Reading it may show how a kernel
    failed that should have written it. -/
structure Accepts (x : Executor) (h : Handle) (n : Int) : Prop where
  refcount : ∃ k : Nat, x.refcount h = .ok k ∧ (k : Int) = n
  size : ∃ bytes, x.size h = .ok bytes
  retain : (x.retain h).1 = .ok ()
  release : (x.release h).1 = .ok ()
  read : (∃ bytes, (x.read h).1 = .ok bytes) ∨ ∃ f, (x.read h).1 = .error f ∧ (x.read h).2.Raised f

/-- The handle is good for nothing, and this is why. -/
structure Refuses (x : Executor) (h : Handle) (f : Failure) : Prop where
  refcount : x.refcount h = .error f
  size : x.size h = .error f
  retain : (x.retain h).1 = .error f
  release : (x.release h).1 = .error f
  read : (x.read h).1 = .error f
  execute : ∀ exprs inputs outputs, .handle h ∈ inputs ++ outputs → (x.execute exprs inputs outputs).1 ≠ .ok ()

variable {x : Executor} {h : Handle} {f : Failure}

theorem raised_readBuffer {y : Deferred} {s : Slot (Option Nat)} (failed : (y.readBuffer h s).1 = .error f) :
    (deferred (y.readBuffer h s).2).Raised f := by
  cases outcome : (y.reached s.content).verdict s.content with
  | none =>
    rw [Deferred.readBuffer_of_done outcome] at failed
    cases failed
  | some g =>
    rw [Deferred.readBuffer_of_failed outcome] at failed ⊢
    cases failed
    obtain ⟨job, _, ended⟩ := Option.bind_eq_some_iff.1 outcome
    exact ⟨job, Option.join_eq_some_iff.1 ended⟩

theorem accepts_of_lookup {s : Slot Unit} (known : x.counts.lookup h = .ok s) : x.Accepts h s.refcount where
  refcount := by
    refine ⟨s.refcount, ?_, rfl⟩
    rw [refcount_counts, Table.refcount, known]
    rfl
  size := by
    refine ⟨s.size, ?_⟩
    rw [size_counts, Table.size, known]
    rfl
  retain := by
    rcases x.retain_counts h with ⟨_, _, answer, _⟩ | ⟨e, unknown, _⟩
    · exact answer
    · rw [known] at unknown
      cases unknown
  release := by
    rcases x.release_counts h with ⟨_, _, answer, _⟩ | ⟨e, unknown, _⟩
    · exact answer
    · rw [known] at unknown
      cases unknown
  read := by
    cases x with
    | host y =>
      have found : y.table.forget.lookup h = .ok s := known
      rw [Table.lookup_forget, map_eq_ok] at found
      obtain ⟨whole, found, _⟩ := found
      refine .inl ⟨whole.content, ?_⟩
      show Slot.content <$> y.table.lookup h = _
      rw [found]
      rfl
    | deferred y =>
      have found : y.table.forget.lookup h = .ok s := known
      rw [Table.lookup_forget, map_eq_ok] at found
      obtain ⟨whole, found, _⟩ := found
      have reading : (deferred y).read h = ((y.readBuffer h whole).1, deferred (y.readBuffer h whole).2) := by
        unfold Executor.read
        simp only [found]
      rw [reading]
      cases answer : (y.readBuffer h whole).1 with
      | ok bytes => exact .inl ⟨bytes, rfl⟩
      | error f => exact .inr ⟨f, rfl, raised_readBuffer answer⟩

omit [Room] in
theorem lookup_of_execute {exprs : List Expr} {inputs outputs : List HandleArgument}
    (done : (x.execute exprs inputs outputs).1 = .ok ()) (member : .handle h ∈ inputs ++ outputs) :
    ∃ s, x.counts.lookup h = .ok s := by
  have known : ∀ {σ : Type} {t : Table σ} {kernel : Kernel} {ins outs : List (Handle × Slot σ)},
      plan t exprs inputs outputs = .ok (kernel, ins, outs) → ∃ s, t.forget.lookup h = .ok s := by
    intro σ t kernel ins outs planned
    obtain ⟨first, second⟩ := lookup_of_plan planned
    rcases List.mem_append.1 member with input | output
    · obtain ⟨s, found, _⟩ := mem_of_mapM_resolve first input
      exact ⟨_, Table.lookup_forget_ok found⟩
    · obtain ⟨s, found, _⟩ := mem_of_mapM_resolve second output
      exact ⟨_, Table.lookup_forget_ok found⟩
  cases x with
  | host y =>
    unfold execute at done
    dsimp only at done
    split at done
    · next ran =>
      obtain ⟨⟨kernel, ins, outs⟩, planned, _⟩ := bind_eq_ok.1 ran
      exact known planned
    · cases done
  | deferred y =>
    unfold execute at done
    dsimp only at done
    split at done
    · next ran =>
      obtain ⟨⟨kernel, ins, outs⟩, planned, _⟩ := bind_eq_ok.1 ran
      exact known planned
    · cases done

theorem refuses_of_lookup (unknown : x.counts.lookup h = .error f) : x.Refuses h f where
  refcount := by
    rw [refcount_counts, Table.refcount, unknown]
    rfl
  size := by
    rw [size_counts, Table.size, unknown]
    rfl
  retain := by
    rcases x.retain_counts h with ⟨_, known, _⟩ | ⟨e, other, answer⟩
    · rw [unknown] at known
      cases known
    · rw [unknown] at other
      cases other
      rw [answer]
  release := by
    rcases x.release_counts h with ⟨_, known, _⟩ | ⟨e, other, answer⟩
    · rw [unknown] at known
      cases known
    · rw [unknown] at other
      cases other
      rw [answer]
  read := by
    cases x with
    | host y =>
      show Slot.content <$> y.table.lookup h = _
      rw [Table.lookup_forget_error.1 unknown]
      rfl
    | deferred y =>
      unfold Executor.read
      simp only [Table.lookup_forget_error.1 unknown]
      rfl
  execute := by
    intro exprs inputs outputs member done
    obtain ⟨s, known⟩ := lookup_of_execute done member
    rw [unknown] at known
    cases known

def held : Executor → Nat → Option (Slot (Bytes ⊕ Option Nat))
  | host x, n => (x.table.slot? n).map fun s => { s with content := .inl s.content }
  | deferred x, n => (x.table.slot? n).map fun s => { s with content := .inr s.content }

omit [Room] in
theorem held_of_table {y z : Deferred} (same : z.table = y.table) (n : Nat) :
    (deferred z).held n = (deferred y).held n := by
  show (z.table.slot? n).map _ = (y.table.slot? n).map _
  rw [same]

omit [Room] in
theorem held_skip (x : Executor) (n : Nat) : x.skip.held n = x.held n := by
  cases x <;> simp only [skip, held, Table.slot?_skip]

/-- What fails leaves every slot as it was. A failed allocation may use up a number. -/
theorem held_of_failed {c : Command} (failed : (x.perform c).1 = .failed f) (n : Nat) :
    (x.perform c).2.held n = x.held n := by
  cases c with
  | allocate size initial =>
    have answer := Reply.of_failed (by simp) failed
    show (x.allocate size initial).2.held n = _
    rcases allocate_failed answer with skipped | unchanged
    · rw [skipped, held_skip]
    · rw [unchanged]
  | retain h =>
    have answer : (x.retain h).1 = .error f := Reply.of_failed (by simp) failed
    show (x.retain h).2.held n = _
    rcases x.retain_counts h with ⟨_, _, done, _⟩ | ⟨_, _, unchanged⟩
    · cases done.symm.trans answer
    · rw [unchanged]
  | release h =>
    have answer : (x.release h).1 = .error f := Reply.of_failed (by simp) failed
    show (x.release h).2.held n = _
    rcases x.release_counts h with ⟨_, _, done, _⟩ | ⟨_, _, unchanged⟩
    · cases done.symm.trans answer
    · rw [unchanged]
  | refcount h => rfl
  | size h => rfl
  | live => rfl
  | execute exprs inputs outputs =>
    have answer := Reply.of_failed (by simp) failed
    show (x.execute exprs inputs outputs).2.held n = _
    rw [execute_failed answer]
  | read h =>
    cases x with
    | host y => rfl
    | deferred y =>
      show ((deferred y).read h).2.held n = _
      unfold read
      dsimp only
      split
      · rfl
      · next s _ => exact held_of_table (y.table_readBuffer h s) n
  | synchronize =>
    cases x with
    | host y => rfl
    | deferred y => exact held_of_table (Deferred.table_awaitAll _ _) n
  | close =>
    cases x with
    | host y => rfl
    | deferred y => cases failed

end Executor

/-! ## The law -/

section Law

variable [Room]

structure Lawful (history : List Entry) (fleet : Fleet) : Prop where
  /-- No handle is returned twice, and every executor returns its own. -/
  distinct : (handles history).Nodup
  own : ∀ e ∈ history, ∀ h, e.reply = .handle h → h.owner = e.executor
  /-- While there are references to it, a handle is good. -/
  good : ∀ h ∈ handles history, 0 < count history h →
    (fleet h.owner).Accepts h (count history h)
  /-- Afterwards it never is again, whatever happens. -/
  gone : ∀ h ∈ handles history, count history h ≤ 0 → ∀ more,
    ((fleet.run more).2 h.owner).Refuses h (.lifetime .released h.slot)
  foreign : ∀ i h, h.owner ≠ i →
    (fleet i).Refuses h (.execution (.foreignHandle h.slot (fleet i).text))
  live : ∀ i, (fleet i).live
    = ((handles history).filter fun h => h.owner = i ∧ 0 < count history h).length
  /-- What fails changes no slot of any executor. -/
  failed : ∀ i c f, ((fleet i).perform c).1 = .failed f →
    ∀ j n, ((fleet.step i (.caller c)).2 j).held n = (fleet j).held n

namespace Accounts

variable {history : List Entry} {fleet : Fleet} {h : Handle}

theorem references_run (accounts : Accounts (fun i => (fleet i).counts) history)
    (member : h ∈ handles history) (unused : (fleet h.owner).counts.references h.slot = 0)
    (more : List (Nat × Turn)) : ((fleet.run more).2 h.owner).counts.references h.slot = 0 := by
  induction more generalizing fleet history with
  | nil => exact unused
  | cons first more inductionHypothesis =>
    obtain ⟨i, turn⟩ := first
    have next := accounts.run [(i, turn)]
    simp only [Fleet.run, List.append_nil] at next
    have still : h ∈ handles (history ++ (fleet.step i turn).1) := by
      rw [handles, List.filterMap_append]
      exact List.mem_append_left _ member
    refine inductionHypothesis next still ?_
    -- What is seen of the handle can only be references that are taken away.
    have counted : (((fleet.step i turn).2 h.owner).counts.references h.slot : Int)
      = count (history ++ (fleet.step i turn).1) h := next.counted h still
    have before : ((fleet h.owner).counts.references h.slot : Int) = count history h :=
      accounts.counted h member
    cases turn with
    | worker =>
      rw [show (fleet.step i .worker).1 = [] from rfl, List.append_nil] at counted
      omega
    | caller c =>
      have moved := ((fleet i).tally_perform c).moved (accounts.positive i)
      have unretained : (⟨i, c, ((fleet i).perform c).1⟩ : Entry).retains h = false := by
        rw [Bool.eq_false_iff]
        intro retained
        have ⟨owner, _⟩ := accounts.mem_of_used moved (.inl retained)
        obtain ⟨command, reply⟩ := Entry.retains_iff.1 retained
        have some : 0 < (fleet i).counts.references h.slot := (moved.used h (.inl command) reply).2
        rw [← owner] at some
        omega
      rw [show (fleet.step i (.caller c)).1 = [⟨i, c, ((fleet i).perform c).1⟩] from rfl, count_append,
        unretained] at counted
      simp only [Bool.false_eq_true, if_false] at counted
      split at counted <;> omega

theorem lawful (accounts : Accounts (fun i => (fleet i).counts) history) : Lawful history fleet where
  distinct := accounts.distinct
  own := accounts.made
  good := by
    intro h member some
    have counted := accounts.counted h member
    rcases (accounts.positive h.owner).lookup_iff (accounts.owner h.owner).symm with
      ⟨s, known, references, _⟩ | ⟨_, none⟩
    · rw [← counted, ← references]
      exact Executor.accepts_of_lookup known
    · rw [none] at counted
      omega
  gone := by
    intro h member none more
    have later := accounts.run more
    have unused := accounts.references_run member (by have := accounts.counted h member; omega) more
    rcases (later.positive h.owner).lookup_iff (later.owner h.owner).symm with ⟨_, _, _, some⟩ | ⟨dead, _⟩
    · omega
    · exact Executor.refuses_of_lookup dead
  foreign := by
    intro i h other
    have owner : ((fleet i).counts).owner = i := accounts.owner i
    rw [← Executor.text_counts]
    exact Executor.refuses_of_lookup (Table.lookup_foreign (by rwa [owner]))
  live := by
    intro i
    -- The slots in use are those of the handles that are still good.
    rw [← Executor.live_counts, (accounts.positive i).live_eq, ← List.length_map Handle.slot]
    apply List.Perm.length_eq
    have slots : (((handles history).filter fun h => h.owner = i ∧ 0 < count history h).map Handle.slot).Nodup := by
      refine List.Nodup.map_on ?_ (accounts.distinct.filter _)
      intro a first b second same
      have left := (List.mem_filter.1 first).2
      have right := (List.mem_filter.1 second).2
      simp only [decide_eq_true_eq] at left right
      cases a
      cases b
      simp_all
    rw [List.perm_ext_iff_of_nodup (List.nodup_range.filter _) slots]
    intro n
    simp only [List.mem_filter, List.mem_range, List.mem_map, decide_eq_true_eq]
    constructor
    · rintro ⟨_, some⟩
      have member := accounts.known i n some
      have counted := accounts.counted _ member
      exact ⟨⟨i, n⟩, ⟨member, rfl, by rw [← counted]; exact_mod_cast some⟩, rfl⟩
    · rintro ⟨h, ⟨member, rfl, some⟩, rfl⟩
      have counted := accounts.counted h member
      exact ⟨accounts.numbered h member, by omega⟩
  failed := by
    intro i c f answer j n
    by_cases mine : j = i
    · subst mine
      show (Function.update fleet j _ j).held n = _
      rw [Function.update_self]
      exact Executor.held_of_failed answer n
    · show (Function.update fleet i _ j).held n = _
      rw [Function.update_of_ne mine]

end Accounts

/-- The law of handles: it holds after everything that callers and workers can do. -/
theorem Fleet.run_lawful {start : Fleet} (fresh : ∀ i, (start i).Fresh i) (turns : List (Nat × Turn)) :
    Lawful (start.run turns).1 (start.run turns).2 := by
  have begin := Accounts.start (fun i => (fresh i).empty.1) (fun i => (fresh i).empty.2)
  exact (begin.run turns).lawful

end Law

def twoExecutors : Fleet := fun i => if i = 1 then .deferred (.fresh i "cpu" .mapped) else .host (.fresh i)

/-- A buffer is retained, offered to the wrong executor, and released twice before another one is made. -/
def releasedTwice : List (Nat × Turn) :=
  [(0, .caller (.allocate 8 none)), (0, .caller (.retain ⟨0, 0⟩)), (1, .caller (.retain ⟨0, 0⟩)),
    (0, .caller (.release ⟨0, 0⟩)), (0, .caller (.release ⟨0, 0⟩)), (0, .caller (.allocate 4 none))]

/-- It is good for nothing after that, and the other one is not mistaken for it. -/
theorem run_lawful_releasedTwice :
    ((twoExecutors.run releasedTwice).2 0).Refuses ⟨0, 0⟩ (.lifetime .released 0)
      ∧ ((twoExecutors.run releasedTwice).2 0).Accepts ⟨0, 1⟩ 1
      ∧ ((twoExecutors.run releasedTwice).2 0).live = 1 := by
  have fresh : ∀ i, (twoExecutors i).Fresh i := by
    intro i
    unfold twoExecutors
    split
    · exact .inr ⟨_, _, rfl⟩
    · exact .inl rfl
  have lawful := Fleet.run_lawful fresh releasedTwice
  refine ⟨lawful.gone ⟨0, 0⟩ (by decide) (by decide) [], ?_, ?_⟩
  · exact lawful.good ⟨0, 1⟩ (by decide) (by decide)
  · exact (lawful.live 0).trans (by decide)

end StridedArray
