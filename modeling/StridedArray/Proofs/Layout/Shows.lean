import StridedArray.Proofs.Layout.Reshape

/-! # What a moved layout shows

A movement is described by the multi-index that each multi-index of the result came from, or by none
for padding. Such descriptions are composed when movements are.

* `Layout.Clear` — a well-formed layout with positions on every axis, of which reshaping loses nothing;
* `Layout.Shows` — a layout shows what another one shows elsewhere; `Shows.trans` — one after the other;
* `Clear.pad`, `Clear.shrink`, `Clear.expand`, `Clear.reshape`, `Clear.permute`, `Clear.flip` — the
  movements. -/

namespace StridedArray.Layout

open Shape (Inside Positive dot ravel unravel product)
open View (Within Stretches pick unpick behind padded ahead spans collapse mirror)

/-- Well formed, without an empty axis, and without a hidden axis that reshaping would lose. -/
structure Clear (l : Layout) : Prop where
  sound : l.Sound
  settled : l.top.Settled
  positive : Positive l.shape

/-- Does one view show no other offsets than another one? -/
def ReachesNoMore (v u : View) : Prop := ∀ index offset, Inside index v.shape →
  v.offsetOf? index = some offset → ∃ before, Inside before u.shape ∧ u.offsetOf? before = some offset

theorem ReachesNoMore.refl (v : View) : ReachesNoMore v v :=
  fun index _ inside known => ⟨index, inside, known⟩

/-- The first layout has the given shape and shows at every multi-index what the second one shows at the
    multi-index that it came from. -/
structure Shows (r l : Layout) (shape : List Int) (origin : List Int → Option (List Int)) : Prop where
  clear : r.Clear
  shape_eq : r.shape = shape
  inside : ∀ {index before}, Inside index shape → origin index = some before → Inside before l.shape
  shown : ∀ {index}, Inside index shape → r.offsetOf? index = (origin index).bind l.offsetOf?
  reach : ReachesNoMore r.base l.base

theorem clear_rowMajor {shape : List Int} (positive : Positive shape) : (rowMajor shape).Clear :=
  ⟨sound_rowMajor fun s member => le_of_lt (positive s member), View.settled_rowMajor shape, positive⟩

theorem ofShape_ok {shape : List Int} (positive : Positive shape) :
    ofShape shape = .ok (rowMajor shape) :=
  ofShape_eq_ok.2 ⟨fun s member => le_of_lt (positive s member), rfl⟩

theorem offsetOf?_rowMajor {shape index : List Int} (inside : Inside index shape) :
    (rowMajor shape).offsetOf? index = some (ravel index shape) := by
  show ((View.rowMajor shape).offsetOf? index).bind (descend []) = _
  rw [View.offsetOf?_rowMajor inside]
  rfl

variable {l m r : Layout} {shape target : List Int} {origin later : List Int → Option (List Int)}

theorem Clear.shows (clear : l.Clear) : Shows l l l.shape some where
  clear := clear
  shape_eq := rfl
  inside := by
    rintro index before inside ⟨⟩
    exact inside
  shown := fun _ => rfl
  reach := .refl _

theorem Shows.positive (shows : Shows r l shape origin) : Positive shape :=
  shows.shape_eq ▸ shows.clear.positive

theorem Shows.congr (shows : Shows r l shape origin)
    (same : ∀ index, Inside index shape → origin index = later index) :
    Shows r l shape later where
  clear := shows.clear
  shape_eq := shows.shape_eq
  inside := fun inside known => shows.inside inside ((same _ inside).trans known)
  shown := fun inside => by rw [← same _ inside, shows.shown inside]
  reach := shows.reach

theorem Shows.trans (first : Shows m l shape origin) (second : Shows r m target later) :
    Shows r l target fun index => (later index).bind origin where
  clear := second.clear
  shape_eq := second.shape_eq
  inside := by
    intro index before inside known
    obtain ⟨middle, known, rest⟩ := Option.bind_eq_some_iff.1 known
    have middleInside := second.inside inside known
    rw [first.shape_eq] at middleInside
    exact first.inside middleInside rest
  shown := by
    intro index inside
    rw [second.shown inside]
    cases known : later index with
    | none => rfl
    | some middle =>
      have middleInside := second.inside inside known
      rw [first.shape_eq] at middleInside
      exact first.shown middleInside
  reach := by
    intro index offset inside known
    obtain ⟨middle, middleInside, middleKnown⟩ := second.reach index offset inside known
    exact first.reach middle offset middleInside middleKnown

/-- Another top view is the one over the buffer only if there is no other. -/
theorem reachesNoMore_replaceTop (l : Layout) {v : View} (reach : ReachesNoMore v l.top) :
    ReachesNoMore (l.replaceTop v).base l.base := by
  obtain ⟨top, below⟩ := l
  cases below with
  | nil => exact reach
  | cons u below =>
    have same : ((⟨top, u :: below⟩ : Layout).replaceTop v).base
        = (⟨top, u :: below⟩ : Layout).base := by
      simp [base, replaceTop, List.getLast?_eq_getLast_of_ne_nil]
    rw [same]
    exact .refl _

theorem reachesNoMore_of_drawsOn {v u : View} (draws : v.DrawsOn u origin) : ReachesNoMore v u := by
  intro index offset inside known
  rw [draws.shown inside] at known
  obtain ⟨before, source, address⟩ := Option.bind_eq_some_iff.1 known
  exact ⟨before, draws.inside inside source, address⟩

theorem base_push (l : Layout) (v : View) : (⟨v, l.top :: l.below⟩ : Layout).base = l.base := by
  obtain ⟨top, below⟩ := l
  cases below with
  | nil => rfl
  | cons u below => simp [base, List.getLast?_eq_getLast_of_ne_nil]

theorem offsetOf?_replaceTop {v : View} (draws : v.DrawsOn l.top origin) {index : List Int}
    (inside : Inside index v.shape) :
    (l.replaceTop v).offsetOf? index = (origin index).bind l.offsetOf? := by
  show (v.offsetOf? index).bind (descend l.below) = _
  rw [draws.shown inside, Option.bind_assoc]
  rfl

theorem Clear.replaceTop (clear : l.Clear) {v : View} (sound : v.Sound) (settled : v.Settled)
    (positive : Positive v.shape) (draws : v.DrawsOn l.top origin) :
    Shows (l.replaceTop v) l v.shape origin where
  clear := ⟨clear.sound.replaceTop sound, settled, positive⟩
  shape_eq := rfl
  inside := draws.inside
  shown := offsetOf?_replaceTop draws
  reach := reachesNoMore_replaceTop l (reachesNoMore_of_drawsOn draws)

/-! ## Contents -/

/-- The number that a layout shows at a multi-index of a buffer of integers; padding shows zero. -/
def entry (l : Layout) (content : Int → Int) (index : List Int) : Int :=
  match l.offsetOf? index with
  | some offset => content offset
  | none => 0

theorem Shows.entry_eq (shows : Shows r l shape origin) (content : Int → Int) {index : List Int}
    (inside : Inside index shape) :
    r.entry content index = ((origin index).map (l.entry content)).getD 0 := by
  unfold entry
  rw [shows.shown inside]
  cases origin index <;> rfl

theorem Shows.entry_of_some (shows : Shows r l shape origin) (content : Int → Int)
    {index before : List Int} (inside : Inside index shape) (known : origin index = some before) :
    r.entry content index = l.entry content before := by
  rw [shows.entry_eq content inside, known]
  rfl

/-! ## The movements -/

/-- Padding: what lies behind it came from there, the padding from nowhere. -/
theorem Clear.pad (clear : l.Clear) {widths : List (Int × Int)} (lengths : widths.length = l.rank)
    (natural : ∀ w ∈ widths, 0 ≤ w.1 ∧ 0 ≤ w.2) :
    ∃ r, l.pad widths = .ok r ∧ Shows r l (padded l.shape widths)
      fun index => if Inside (behind index widths) l.shape then some (behind index widths) else none := by
  have top := clear.sound.top
  refine ⟨_, pad_ok.2 ⟨lengths, natural, rfl⟩, ?_⟩
  by_cases nothing : ∀ w ∈ widths, w = (0, 0)
  · rw [if_pos nothing, View.padded_of_zeros lengths nothing]
    apply clear.shows.congr
    intro index inside
    rw [View.behind_of_lows (lengths.trans inside.length_eq.symm)
      fun w member => by rw [nothing w member], if_pos inside]
  · rw [if_neg nothing]
    exact clear.replaceTop (top.pad lengths natural)
      (clear.settled.pad top
        (fun a member empty => absurd empty (clear.positive _ (List.of_mem_zip member).1).ne') natural)
      (View.positive_padded clear.positive natural)
      (top.regular.drawsOn_pad lengths natural)

/-- Cutting: every multi-index came from the part that is left. -/
theorem Clear.shrink (clear : l.Clear) {kept : List (Int × Int)} (within : Within kept l.shape)
    (positive : Positive (spans kept)) :
    ∃ r, l.shrink kept = .ok r ∧ Shows r l (spans kept) fun index => some (ahead index kept) := by
  have top := clear.sound.top
  refine ⟨_, shrink_ok.2 ⟨within, rfl⟩, ?_⟩
  by_cases everything : kept = View.fullMask l.shape
  · rw [if_pos everything, everything, View.spans_fullMask]
    apply clear.shows.congr
    intro index inside
    rw [View.ahead_fullMask inside.length_eq]
  · rw [if_neg everything]
    exact clear.replaceTop (top.shrink within) (top.settled_shrink within) positive
      (top.regular.drawsOn_shrink within)

theorem Clear.cut (clear : l.Clear)
    (fits : List.Forall₂ (fun high s => 0 < high ∧ high ≤ s) target l.shape) :
    ∃ r, l.shrink (View.fullMask target) = .ok r ∧ Shows r l target some := by
  have positive : Positive target := by
    intro high member
    rw [← List.map_fst_zip (le_of_eq fits.length_eq), List.mem_map] at member
    obtain ⟨a, member, rfl⟩ := member
    exact ((List.forall₂_iff_zip.1 fits).2 member).1
  have within : Within (View.fullMask target) l.shape :=
    List.forall₂_map_left_iff.2 (fits.imp fun _ _ bounds => ⟨le_refl _, le_of_lt bounds.1, bounds.2⟩)
  obtain ⟨r, moved, shows⟩ := clear.shrink within (by rwa [View.spans_fullMask])
  rw [View.spans_fullMask] at shows
  refine ⟨r, moved, shows.congr fun index inside => ?_⟩
  rw [View.ahead_fullMask inside.length_eq]

/-- Repeating: every multi-index came from the one position of a repeated axis. -/
theorem Clear.expand (clear : l.Clear) (positive : Positive target)
    (stretches : List.Forall₂ (fun s n => s = n ∨ s = 1) l.shape target) :
    ∃ r, l.expand target = .ok r
      ∧ Shows r l target fun index => some (collapse l.shape index) := by
  have top := clear.sound.top
  have natural : Stretches l.shape target :=
    View.stretches_iff.2 ⟨stretches, fun n member => le_of_lt (positive n member)⟩
  refine ⟨_, expand_ok.2 ⟨stretches, rfl⟩, ?_⟩
  by_cases same : target = l.shape
  · rw [if_pos same, same]
    apply clear.shows.congr
    intro index inside
    rw [View.collapse_of_inside inside]
  · rw [if_neg same]
    exact clear.replaceTop (top.expand natural) (clear.settled.expand top natural) positive
      (top.regular.drawsOn_expand stretches)

/-- A view in another shape shows no more than before, unless it loses a hidden axis of extent 1. -/
theorem reachesNoMore_reshape {v u : View} (sound : v.Sound) (extents : ∀ s ∈ target, 0 ≤ s)
    (size : product target = product v.shape) (covered : ¬ (v.Drops target ∧ v.Veiled))
    (known : v.reshape? target = some u) : ReachesNoMore u v := by
  obtain ⟨_, _, shape, shown⟩ := sound.reshape extents known
  intro index offset inside address
  rw [shape] at inside
  obtain ⟨low, high⟩ := inside.ravel_bounds
  rw [size] at high
  have positive := Shape.positive_of_product_pos sound.extents (lt_of_le_of_lt low high)
  have before := Shape.inside_unravel positive (ravel index target)
  rw [shown _ _ before inside (Shape.ravel_unravel positive low high).symm] at address
  refine ⟨_, before, ?_⟩
  split at address
  · next drops => rwa [sound.unveiled_of_not_veiled (fun veiled => covered ⟨drops, veiled⟩) before] at address
  · exact address

theorem Sound.reachesNoMore_reshaped (sound : l.Sound) (settled : l.top.Settled) (extents : ∀ s ∈ target, 0 ≤ s)
    (size : product target = l.size) : ReachesNoMore (l.reshaped target).base l.base := by
  unfold reshaped
  split
  · exact .refl _
  · cases known : l.top.reshape? target with
    | none => exact base_push l (View.rowMajor target) ▸ .refl _
    | some v =>
      exact reachesNoMore_replaceTop l (reachesNoMore_reshape sound.top extents size
        (fun hidden => hidden.1.not_veiled sound.top settled hidden.2) known)

/-- Another shape: every multi-index came from the one at the same position. -/
theorem Clear.reshape (clear : l.Clear) (positive : Positive target)
    (size : product target = l.size) :
    ∃ r, l.reshape target = .ok r
      ∧ Shows r l target fun index => some (unravel (ravel index target) l.shape) := by
  have extents : ∀ s ∈ target, 0 ≤ s := fun s member => le_of_lt (positive s member)
  have moved : l.reshape target = .ok (l.reshaped target) := reshape_ok.2 ⟨extents, size, rfl⟩
  have shaped := shape_reshaped clear.sound extents
  refine ⟨_, moved, ⟨⟨clear.sound.reshape moved, ?_, by rwa [shaped]⟩, shaped, ?_, ?_, ?_⟩⟩
  · exact clear.sound.settled_reshaped extents (.inr clear.settled)
  · rintro index before inside ⟨⟩
    exact Shape.inside_unravel clear.positive _
  · intro index inside
    obtain ⟨low, high⟩ := inside.ravel_bounds
    have here := clear.sound.offsetOf?_reshaped_of_settled clear.settled extents size low
      (by rwa [← size])
    rw [inside.unravel_ravel] at here
    exact here
  · exact clear.sound.reachesNoMore_reshaped clear.settled extents size

/-- Another order: every multi-index came from the one with its entries put back. -/
theorem Clear.permute (clear : l.Clear) {order : List Int} (perm : order.Perm (axisNumbers l.rank)) :
    ∃ r, l.permute order = .ok r
      ∧ Shows r l (pick order l.shape) fun index => some (unpick order index) := by
  have top := clear.sound.top
  obtain ⟨v, permuted, _, shape, draws⟩ := top.regular.permute perm
  obtain ⟨sound, ranges⟩ := top.permute perm permuted
  refine ⟨_, permute_ok.2 ⟨perm, v, permuted, rfl⟩, ?_⟩
  have positive : Positive v.shape := by
    rw [shape]
    intro s member
    exact clear.positive s ((View.pick_perm perm).mem_iff.1 member)
  show Shows _ l (pick order l.top.shape) _
  rw [← shape]
  exact clear.replaceTop sound (clear.settled.permute top perm shape ranges) positive draws

theorem Sound.ranges_permute (sound : l.Sound) {order : List Int} (moved : l.permute order = .ok r) :
    r.top.ranges = pick order l.top.ranges := by
  obtain ⟨perm, v, permuted, rfl⟩ := permute_ok.1 moved
  exact (sound.top.permute perm permuted).2

/-- Axes backwards, where nothing is hidden: every multi-index came from the one counted from the
    ends. -/
theorem Clear.flip (clear : l.Clear) (whole : l.top.ranges = View.fullMask l.shape)
    {axes : List Nat} (bounds : ∀ axis ∈ axes, axis < l.rank) :
    ∃ r, l.flip (axes.map Int.ofNat) = .ok r
      ∧ Shows r l l.shape fun index => some (axes.foldr (mirror l.shape) index) := by
  have top := clear.sound.top
  obtain ⟨v, flipped, _, sound, shape, full, draws⟩ := top.regular.flip bounds
  refine ⟨_, flip_ok.2 ⟨axes, places_natCast bounds, v, flipped, rfl⟩, ?_⟩
  have settled : v.Settled := by
    unfold View.Settled
    rw [full whole, shape]
    exact View.settled_rowMajor l.shape
  show Shows _ l l.top.shape _
  rw [← shape]
  exact clear.replaceTop (sound top) settled (by rw [shape]; exact clear.positive) draws

end StridedArray.Layout
