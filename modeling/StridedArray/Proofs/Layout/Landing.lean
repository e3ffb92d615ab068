import StridedArray.Proofs.Layout.Guard
import StridedArray.Proofs.Layout.Reach

/-! # Where the views of a layout land

A view shows positions of the view below it, the lowest one shows elements of the buffer. Movements keep that as long
as no axis of extent 1 is lost that hides something: what it hid may be anywhere.

* `Lands` — a well-formed layout all of whose views land; `lands_rowMajor`;
* `Lands.address_bounds`, `Lands.reachesInside` — addresses are inside of the buffer;
* `Move.Covers`, `Covered` — movements that lose no hidden axis of extent 1;
* `Lands.reshape` and its neighbours, `lands_runAll` — these keep it;
* `exists_hiding`, `Lands.addressable_or_hidden` — over a view without positions there is one that hides everything. -/

namespace StridedArray

open Shape (Inside Positive product unravel)
open View (admits)

namespace Layout

/-- Well formed, with every view over the positions of the next one and the last one over a buffer of so many
    elements. -/
structure Lands (l : Layout) (count : Int) : Prop where
  sound : l.Sound
  chain : (l.top :: l.below).IsChain View.LandsIn
  base : ∀ index offset, Inside index l.base.shape → l.base.offsetOf? index = some offset → 0 ≤ offset ∧ offset < count

variable {l r : Layout} {count : Int}

theorem lands_rowMajor {shape : List Int} (extents : ∀ s ∈ shape, 0 ≤ s) : (rowMajor shape).Lands (product shape) where
  sound := sound_rowMajor extents
  chain := .singleton _
  base := @landsIn_rowMajor shape (View.rowMajor shape) rfl

/-! ## Addresses -/

theorem descend_bounds {top : View} {below : List View} (sound : ∀ v ∈ top :: below, v.Sound)
    (chain : (top :: below).IsChain View.LandsIn)
    (base : ∀ index offset, Inside index (Layout.mk top below).base.shape →
      (Layout.mk top below).base.offsetOf? index = some offset → 0 ≤ offset ∧ offset < count)
    {x a : Int} (low : 0 ≤ x) (high : x < product top.shape) (known : descend (top :: below) x = some a) :
    0 ≤ a ∧ a < count := by
  induction below generalizing top x with
  | nil =>
    have positive := Shape.positive_of_product_pos (sound top (List.mem_cons_self ..)).extents (by omega)
    obtain ⟨offset, address, ⟨⟩⟩ := Option.bind_eq_some_iff.1 known
    exact base _ a (Shape.inside_unravel positive x) address
  | cons next below inductionHypothesis =>
    obtain ⟨topSound, belowSound⟩ := List.forall_mem_cons.1 sound
    obtain ⟨lands, rest⟩ := List.isChain_cons_cons.1 chain
    have positive := Shape.positive_of_product_pos topSound.extents (by omega)
    obtain ⟨offset, address, deeper⟩ := Option.bind_eq_some_iff.1 known
    obtain ⟨least, most⟩ := lands _ offset (Shape.inside_unravel positive x) address
    rw [base_cons] at base
    exact inductionHypothesis belowSound rest base least most deeper

/-- An address is that of an element of the buffer. -/
theorem Lands.address_bounds (lands : l.Lands count) {p a : Int} (known : l.addressFlat p = .ok (some a)) :
    0 ≤ a ∧ a < count := by
  have inside := inside_of_addressFlat known
  rw [lands.sound.addressFlat_eq inside.1 inside.2] at known
  exact descend_bounds lands.sound lands.chain lands.base inside.1 inside.2 (Except.ok.inj known)

/-- So are both ends of the announced range. -/
theorem Lands.reachesInside (lands : l.Lands count) {n : Nat} (enough : count ≤ n) : l.ReachesInside n := by
  intro low high known
  obtain ⟨⟨a, aInside, aAddress⟩, b, bInside, bAddress⟩ :=
    offsetRange?_attained (lands.sound _ l.base_mem).regular known
  have least := lands.base a low aInside aAddress
  have most := lands.base b high bInside bAddress
  omega

/-! ## The movements -/

section Movements

variable {target order : List Int} {widths kept : List (Int × Int)} {v : View}

theorem Lands.replaceTop (lands : l.Lands count) (sound : v.Sound) (reach : ReachesNoMore v l.top) :
    (l.replaceTop v).Lands count where
  sound := lands.sound.replaceTop sound
  chain := by
    obtain ⟨next, rest⟩ := List.isChain_cons.1 lands.chain
    refine List.isChain_cons.2 ⟨fun w member index offset inside known => ?_, rest⟩
    obtain ⟨before, beforeInside, address⟩ := reach index offset inside known
    exact next w member before offset beforeInside address
  base := by
    intro index offset inside known
    obtain ⟨before, beforeInside, address⟩ := reachesNoMore_replaceTop l reach index offset inside known
    exact lands.base before offset beforeInside address

theorem Lands.push (lands : l.Lands count) (extents : ∀ s ∈ target, 0 ≤ s) (size : product target = l.size) :
    (⟨View.rowMajor target, l.top :: l.below⟩ : Layout).Lands count where
  sound := List.forall_mem_cons.2 ⟨View.sound_rowMajor extents, lands.sound⟩
  chain := .cons_cons (landsIn_rowMajor size) lands.chain
  base := by
    rw [base_push]
    exact lands.base

theorem Lands.reshape (lands : l.Lands count) (covered : ¬ (l.Regroups target ∧ l.top.Veiled))
    (moved : l.reshape target = .ok r) : r.Lands count := by
  obtain ⟨extents, size, rfl⟩ := reshape_ok.1 moved
  unfold reshaped
  by_cases same : target = l.shape
  · rwa [if_pos same]
  rw [if_neg same]
  cases known : l.top.reshape? target with
  | none => exact lands.push extents size
  | some v =>
    refine lands.replaceTop (lands.sound.top.reshape extents known).1 ?_
    exact reachesNoMore_reshape lands.sound.top extents size (fun hidden => covered ⟨⟨same, hidden.1⟩, hidden.2⟩) known

theorem Lands.reshape_of_settled (lands : l.Lands count) (settled : l.top.Settled)
    (moved : l.reshape target = .ok r) : r.Lands count ∧ r.top.Settled := by
  refine ⟨lands.reshape (fun hidden => hidden.1.2.not_veiled lands.sound.top settled hidden.2) moved, ?_⟩
  obtain ⟨extents, -, rfl⟩ := reshape_ok.1 moved
  exact lands.sound.settled_reshaped extents (.inr settled)

theorem Lands.permute (lands : l.Lands count) (moved : l.permute order = .ok r) : r.Lands count := by
  have top := lands.sound.top
  obtain ⟨perm, v, permuted, rfl⟩ := permute_ok.1 moved
  obtain ⟨u, known, _, shape, draws⟩ := top.regular.permute perm
  obtain rfl : v = u := Option.some.inj (permuted.symm.trans known)
  exact lands.replaceTop (top.permute perm permuted).1 (reachesNoMore_of_drawsOn draws)

theorem Lands.moveAxis (lands : l.Lands count) {source target : Int} (moved : l.moveAxis source target = .ok r) :
    r.Lands count := by
  unfold Layout.moveAxis at moved
  rw [demand_eq_ok] at moved
  exact lands.permute moved.2

theorem Lands.pad (lands : l.Lands count) (moved : l.pad widths = .ok r) : r.Lands count := by
  have top := lands.sound.top
  obtain ⟨lengths, natural, rfl⟩ := pad_ok.1 moved
  split
  · exact lands
  · exact lands.replaceTop (top.pad lengths natural)
      (reachesNoMore_of_drawsOn (top.regular.drawsOn_pad lengths natural))

theorem Lands.shrink (lands : l.Lands count) (moved : l.shrink kept = .ok r) : r.Lands count := by
  have top := lands.sound.top
  obtain ⟨within, rfl⟩ := shrink_ok.1 moved
  split
  · exact lands
  · exact lands.replaceTop (top.shrink within) (reachesNoMore_of_drawsOn (top.regular.drawsOn_shrink within))

theorem Lands.expand (lands : l.Lands count) (extents : ∀ n ∈ target, 0 ≤ n) (moved : l.expand target = .ok r) :
    r.Lands count := by
  have top := lands.sound.top
  obtain ⟨stretches, rfl⟩ := expand_ok.1 moved
  split
  · exact lands
  · exact lands.replaceTop (top.expand (View.stretches_iff.2 ⟨stretches, extents⟩))
      (reachesNoMore_of_drawsOn (top.regular.drawsOn_expand stretches))

theorem settled_expand (sound : l.Sound) (settled : l.top.Settled) (extents : ∀ n ∈ target, 0 ≤ n)
    (moved : l.expand target = .ok r) : r.top.Settled := by
  obtain ⟨stretches, rfl⟩ := expand_ok.1 moved
  split
  · exact settled
  · exact settled.expand sound.top (View.stretches_iff.2 ⟨stretches, extents⟩)

theorem Lands.tile (lands : l.Lands count) (settled : l.top.Settled) {counts : List Int}
    (moved : l.tile counts = .ok r) : r.Lands count := by
  obtain ⟨_, natural, split, first, tiled, second, third⟩ := tile_ok.1 moved
  have extents := nonneg_interleave (fun c member => by have := natural c member; omega) lands.sound.extents
  obtain ⟨splitLands, splitSettled⟩ := lands.reshape_of_settled settled first
  have tiledLands := splitLands.expand extents second
  exact (tiledLands.reshape_of_settled (settled_expand splitLands.sound splitSettled extents second) third).1

theorem Lands.flip (lands : l.Lands count) {axes : List Int} (moved : l.flip axes = .ok r) : r.Lands count := by
  have top := lands.sound.top
  obtain ⟨places, placed, v, flipped, rfl⟩ := flip_ok.1 moved
  obtain ⟨u, known, _, sound, shape, full, draws⟩ := top.regular.flip (places_lt placed)
  obtain rfl : v = u := Option.some.inj (flipped.symm.trans known)
  exact lands.replaceTop (sound top) (reachesNoMore_of_drawsOn draws)

end Movements

end Layout

/-! ## Several movements -/

/-- Does a movement lose no axis of extent 1 that hides something? Only reshaping does. -/
def Move.Covers (l : Layout) : Move → Prop
  | .reshape target => ¬ (l.Regroups target ∧ l.top.Veiled)
  | .tile _ => l.top.Settled
  | .permute _ | .moveAxis .. | .pad _ | .shrink _ | .expand _ | .flip _ => True

instance (v : View) : Decidable v.Settled := inferInstanceAs (Decidable (∀ a ∈ _, _ → _))

instance (l : Layout) (m : Move) : Decidable (m.Covers l) :=
  match m with
  | .reshape _ => inferInstanceAs (Decidable (¬ (_ ∧ _)))
  | .tile _ => inferInstanceAs (Decidable l.top.Settled)
  | .permute _ | .moveAxis .. | .pad _ | .shrink _ | .expand _ | .flip _ => isTrue trivial

theorem Move.lands_run {l r : Layout} {count : Int} (lands : l.Lands count) {m : Move} (natural : m.Natural)
    (covers : m.Covers l) (moved : m.run l = .ok r) : r.Lands count := by
  cases m with
  | reshape shape => exact lands.reshape covers moved
  | permute order => exact lands.permute moved
  | moveAxis source target => exact lands.moveAxis moved
  | pad widths => exact lands.pad moved
  | shrink ranges => exact lands.shrink moved
  | expand shape => exact lands.expand natural moved
  | tile counts => exact lands.tile covers moved
  | flip axes => exact lands.flip moved

namespace Layout

variable {l r : Layout} {count : Int}

/-- Does none of several movements lose an axis of extent 1 that hides something? -/
def Covered : Layout → List Move → Prop
  | _, [] => True
  | l, m :: moves => m.Covers l ∧ match m.run l with
    | .ok r => Covered r moves
    | .error _ => True

instance decidableCovered : ∀ (l : Layout) (moves : List Move), Decidable (l.Covered moves)
  | _, [] => isTrue trivial
  | l, m :: moves =>
    have : Decidable (match m.run l with | .ok r => Covered r moves | .error _ => True) :=
      match m.run l with
      | .ok r => decidableCovered r moves
      | .error _ => isTrue trivial
    inferInstanceAs (Decidable (_ ∧ _))

theorem lands_runAll (lands : l.Lands count) {moves : List Move}
    (natural : ∀ m ∈ moves, m.Natural) (covered : l.Covered moves) (moved : l.runAll moves = .ok r) :
    r.Lands count := by
  induction moves generalizing l with
  | nil =>
    cases moved
    exact lands
  | cons m moves inductionHypothesis =>
    rw [runAll, List.foldlM_cons, bind_eq_ok] at moved
    obtain ⟨next, first, rest⟩ := moved
    obtain ⟨here, later⟩ := List.forall_mem_cons.1 natural
    obtain ⟨covers, further⟩ := covered
    rw [first] at further
    exact inductionHypothesis (m.lands_run lands here covers first) later further rest

/-! ## Views without positions -/

/-- The first index of every range is in it unless the range is empty. -/
theorem admits_starts {ranges : List (Int × Int)} (full : ∀ r ∈ ranges, r.1 < r.2) :
    admits ranges (ranges.map Prod.fst) = true := by
  induction ranges with
  | nil => rfl
  | cons r ranges inductionHypothesis =>
    obtain ⟨here, rest⟩ := List.forall_mem_cons.1 full
    rw [List.map_cons, View.admits_cons, inductionHypothesis rest, Bool.and_true]
    exact decide_eq_true ⟨Int.le_refl _, here⟩

theorem exists_empty_of_landsIn {v w : View} (sound : v.Sound) (lands : v.LandsIn w) (none : product w.shape ≤ 0) :
    ∃ r ∈ v.ranges, r.2 ≤ r.1 := by
  by_contra full
  push Not at full
  -- Otherwise the least multi-index in the valid ranges is shown, and there is nowhere to land.
  have shown := admits_starts full
  have inside := sound.regular.ranges.inside (by rw [List.length_map, sound.ranges.length_eq]) shown
  have bounds := lands _ _ inside (by rw [View.offsetOf?_ranges inside, if_pos shown])
  omega

/-- Above a view without positions some view hides all of its own. -/
theorem exists_hiding {top : View} {below : List View} (sound : ∀ v ∈ top :: below, v.Sound)
    (chain : (top :: below).IsChain View.LandsIn) (positive : Positive top.shape)
    (none : ∃ w ∈ below, ¬ Positive w.shape) :
    ∃ v ∈ top :: below, Positive v.shape ∧ ∃ r ∈ v.ranges, r.2 ≤ r.1 := by
  induction below generalizing top with
  | nil =>
    obtain ⟨w, member, -⟩ := none
    cases member
  | cons next below inductionHypothesis =>
    obtain ⟨topSound, belowSound⟩ := List.forall_mem_cons.1 sound
    obtain ⟨lands, rest⟩ := List.isChain_cons_cons.1 chain
    by_cases nextPositive : Positive next.shape
    · have deeper : ∃ w ∈ below, ¬ Positive w.shape := by
        obtain ⟨w, member, empty⟩ := none
        rcases List.mem_cons.1 member with rfl | member
        · exact absurd nextPositive empty
        · exact ⟨w, member, empty⟩
      obtain ⟨v, member, found⟩ := inductionHypothesis belowSound rest nextPositive deeper
      exact ⟨v, List.mem_cons_of_mem _ member, found⟩
    · have nowhere : product next.shape ≤ 0 := by
        by_contra several
        exact nextPositive (Shape.positive_of_product_pos (belowSound next (List.mem_cons_self ..)).extents (by omega))
      exact ⟨top, List.mem_cons_self .., positive, exists_empty_of_landsIn topSound lands nowhere⟩

/-- Either all views have positions and can be addressed, or some view hides all that there is. -/
theorem Lands.addressable_or_hidden (lands : l.Lands count) (several : 0 < l.size)
    (small : ∀ v ∈ l.top :: l.below, product v.shape < 0x80000000) :
    l.Addressable ∨ ∃ v ∈ l.top :: l.below, Positive v.shape ∧ ∃ r ∈ v.ranges, r.2 ≤ r.1 := by
  have top : Positive l.top.shape := Shape.positive_of_product_pos lands.sound.extents several
  by_cases positive : ∀ v ∈ l.below, Positive v.shape
  · have every : ∀ v ∈ l.top :: l.below, Positive v.shape := List.forall_mem_cons.2 ⟨top, positive⟩
    refine .inl ⟨fun v member => ?_, lands.chain⟩
    exact View.addressable_of_within (every v member) (small v member) (lands.sound v member).ranges
  · push Not at positive
    exact .inr (exists_hiding lands.sound lands.chain top positive)

end Layout

end StridedArray
