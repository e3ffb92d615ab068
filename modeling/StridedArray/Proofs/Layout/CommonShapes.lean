import StridedArray.Proofs.Layout.Broadcast

/-! # Common shapes as least upper bounds

That one shape stretches to another is an order, and a common shape is the least one that all the given ones stretch
to. So it is the same in whatever order and groups the shapes are broadcast, and it is there unless two of them have
extents on one axis of which neither stretches to the other.

* `extentAt`, `Clash` — extents counted from the last axis, and shapes that have no common one;
* `stretchesTo_iff`, `CommonShape.least` — the order, and common shapes in it;
* `exists_commonShape_iff`, `broadcast_settles` — when there is a common shape, and that it is found just then;
* `Grouping`, `Grouping.settles` — groups that are broadcast first, to any depth;
* `broadcast_lawful` — the laws of broadcasting, and what a contiguous layout shows afterwards. -/

namespace StridedArray.Shape

/-- The extent on the axis with the given distance from the last one. An axis that is not there has extent 1. -/
def extentAt (shape : List Int) (k : Nat) : Int := (shape.reverse[k]?).getD 1

/-- On some axis, counted from the last one, two shapes have different extents and neither is 1. -/
def Clash (a b : List Int) : Prop := ∃ k, extentAt a k ≠ extentAt b k ∧ extentAt a k ≠ 1 ∧ extentAt b k ≠ 1

variable {a b c out shape : List Int} {shapes : List (List Int)} {k : Nat}

/-! ## The order -/

theorem getElem?_reverse_of_lt (bound : k < shape.length) : shape.reverse[k]? = some (extentAt shape k) := by
  unfold extentAt
  rw [List.getElem?_eq_getElem (by rwa [List.length_reverse]), Option.getD_some]

theorem extentAt_of_lt (bound : k < shape.length) : shape[shape.length - 1 - k]? = some (extentAt shape k) := by
  rw [← List.getElem?_reverse bound, getElem?_reverse_of_lt bound]

theorem extentAt_of_ge (bound : shape.length ≤ k) : extentAt shape k = 1 := by
  unfold extentAt
  rw [List.getElem?_eq_none (by rwa [List.length_reverse]), Option.getD_none]

theorem extentAt_of_mem {s : Int} (known : shape.reverse[k]? = some s) : extentAt shape k = s := by
  rw [extentAt, known, Option.getD_some]

theorem stretchesTo_iff : StretchesTo a b ↔
    a.length ≤ b.length ∧ ∀ k, extentAt a k = extentAt b k ∨ extentAt a k = 1 := by
  refine ⟨fun stretches => ⟨stretches.length_le, fun k => ?_⟩, fun ⟨short, each⟩ => ?_⟩
  · rcases Nat.lt_or_ge k b.length with bound | beyond
    · have first := getElem?_raised bound stretches.length_le
      have second := extentAt_of_lt bound
      obtain ⟨low, entry⟩ := List.getElem?_eq_some_iff.1 first
      obtain ⟨here, other⟩ := List.getElem?_eq_some_iff.1 second
      have both := (List.forall₂_iff_get.1 stretches).2 _ low here
      rwa [List.get_eq_getElem, List.get_eq_getElem, entry, other] at both
    · exact .inr (extentAt_of_ge (stretches.length_le.trans beyond))
  · refine List.forall₂_iff_get.2 ⟨length_raised short, fun i low here => ?_⟩
    have bound : b.length - 1 - i < b.length := by omega
    have back : b.length - 1 - (b.length - 1 - i) = i := by omega
    have first := getElem?_raised bound short
    have second := extentAt_of_lt bound
    rw [back, List.getElem?_eq_getElem low] at first
    rw [back, List.getElem?_eq_getElem here] at second
    rw [List.get_eq_getElem, List.get_eq_getElem, Option.some.inj first, Option.some.inj second]
    exact each _

theorem StretchesTo.trans (first : StretchesTo a b) (second : StretchesTo b c) : StretchesTo a c := by
  rw [stretchesTo_iff] at first second ⊢
  refine ⟨first.1.trans second.1, fun k => ?_⟩
  have left := first.2 k
  have right := second.2 k
  omega

theorem commonShape_iff : CommonShape shapes out ↔ (∀ shape ∈ shapes, StretchesTo shape out)
    ∧ (∃ shape ∈ shapes, shape.length = out.length)
    ∧ ∀ k, ∃ shape ∈ shapes, extentAt shape k = extentAt out k := by
  refine ⟨fun common => ⟨common.stretches, common.rank, fun k => ?_⟩, fun ⟨stretches, rank, attained⟩ =>
    ⟨stretches, rank, fun i bound => ?_⟩⟩
  · rcases Nat.lt_or_ge k out.length with bound | beyond
    · obtain ⟨shape, member, known⟩ := common.attained (out.length - 1 - k) (by omega)
      rw [getElem?_raised bound (common.stretches shape member).length_le, extentAt_of_lt bound] at known
      exact ⟨shape, member, Option.some.inj known⟩
    · obtain ⟨longest, member, rank⟩ := common.rank
      exact ⟨longest, member, by rw [extentAt_of_ge beyond, extentAt_of_ge (rank ▸ beyond)]⟩
  · have turned : out.length - 1 - i < out.length := by omega
    have back : out.length - 1 - (out.length - 1 - i) = i := by omega
    obtain ⟨shape, member, same⟩ := attained (out.length - 1 - i)
    have raised := getElem?_raised turned (stretches shape member).length_le
    rw [back] at raised
    have known := extentAt_of_lt turned
    rw [back] at known
    exact ⟨shape, member, by rw [raised, known, ← same]; rfl⟩

/-- No other shape that all stretch to comes before the common one. -/
theorem CommonShape.least (common : CommonShape shapes out) (bound : ∀ shape ∈ shapes, StretchesTo shape b) :
    StretchesTo out b := by
  obtain ⟨-, ⟨longest, inside, rank⟩, attained⟩ := commonShape_iff.1 common
  refine stretchesTo_iff.2 ⟨rank ▸ (bound longest inside).length_le, fun k => ?_⟩
  obtain ⟨shape, member, same⟩ := attained k
  rw [← same]
  exact (stretchesTo_iff.1 (bound shape member)).2 k

theorem not_clash (first : StretchesTo a c) (second : StretchesTo b c) : ¬ Clash a b := by
  rintro ⟨k, different, left, right⟩
  have toFirst := (stretchesTo_iff.1 first).2 k
  have toSecond := (stretchesTo_iff.1 second).2 k
  omega

/-! ## Finding the common shape -/

/-- An axis has no common extent just if two extents on it differ and neither is 1. -/
theorem commonExtent?_eq_none {extents : List Int} (missing : commonExtent? extents = none) :
    ∃ s ∈ extents, ∃ n ∈ extents, s ≠ n ∧ s ≠ 1 ∧ n ≠ 1 := by
  unfold commonExtent? at missing
  cases known : extents.filter (· ≠ 1) with
  | nil => rw [known] at missing; cases missing
  | cons e rest =>
    rw [known] at missing
    have differ : ¬ ∀ n ∈ rest, n = e := fun all => by
      have same : rest.all (· = e) = true := by simpa using all
      dsimp only at missing
      rw [if_pos same] at missing
      cases missing
    push Not at differ
    obtain ⟨n, member, other⟩ := differ
    have kept : ∀ s ∈ e :: rest, s ∈ extents ∧ s ≠ 1 := fun s listed => by
      rw [← known, List.mem_filter] at listed
      exact ⟨listed.1, by simpa using listed.2⟩
    obtain ⟨eListed, eOther⟩ := kept e (List.mem_cons_self ..)
    obtain ⟨nListed, nOther⟩ := kept n (List.mem_cons_of_mem _ member)
    exact ⟨e, eListed, n, nListed, Ne.symm other, eOther, nOther⟩

theorem commonExtent?_eq_some {extents : List Int} {n : Int} (found : commonExtent? extents = some n) :
    (∀ s ∈ extents, s = n ∨ s = 1) ∧ (n ∈ extents ∨ n = 1) := by
  have kept : ∀ s ∈ extents, s ≠ 1 → s ∈ extents.filter (· ≠ 1) := fun s member other =>
    List.mem_filter.2 ⟨member, by simpa using other⟩
  unfold commonExtent? at found
  cases known : extents.filter (· ≠ 1) with
  | nil =>
    rw [known] at found kept
    cases found
    exact ⟨fun s member => .inr (by_contra fun other => List.not_mem_nil (kept s member other)), .inr rfl⟩
  | cons e rest =>
    rw [known] at found kept
    obtain ⟨same, first⟩ := Option.ite_none_right_eq_some.1 found
    obtain rfl := Option.some.inj first
    have listed : e ∈ extents.filter (· ≠ 1) := known ▸ List.mem_cons_self ..
    refine ⟨fun s member => ?_, .inl (List.mem_filter.1 listed).1⟩
    by_contra other
    push Not at other
    rcases List.mem_cons.1 (kept s member other.2) with rfl | inside
    · exact other.1 rfl
    · exact other.1 (by simpa using List.all_eq_true.1 same s inside)

theorem mem_alignedExtents {s : Int} : s ∈ alignedExtents shapes k ↔ ∃ shape ∈ shapes, shape.reverse[k]? = some s :=
  List.mem_filterMap

theorem exists_longest (nonempty : shapes ≠ []) : ∃ longest ∈ shapes,
    longest.length = greatestRank shapes ∧ ∀ shape ∈ shapes, shape.length ≤ greatestRank shapes := by
  obtain ⟨longest, member, greatest⟩ :=
    shapes.toFinset.exists_max_image List.length (List.toFinset_nonempty_iff _ |>.2 nonempty)
  rw [List.mem_toFinset] at member
  have bound : ∀ shape ∈ shapes, shape.length ≤ longest.length := fun shape inside =>
    greatest shape (List.mem_toFinset.2 inside)
  have rank : greatestRank shapes = longest.length := by
    refine foldl_max_eq (fun m listed => ?_) (Nat.zero_le _) (.inl (List.mem_map_of_mem member))
    obtain ⟨shape, inside, rfl⟩ := List.mem_map.1 listed
    exact bound shape inside
  exact ⟨longest, member, rank.symm, fun shape inside => rank ▸ bound shape inside⟩

theorem mapM_eq_some {α β : Type} {f : α → Option β} {xs : List α} {ys : List β} :
    xs.mapM f = some ys ↔ List.Forall₂ (fun x y => f x = some y) xs ys := by
  induction xs generalizing ys with
  | nil =>
    rw [List.mapM_nil, List.forall₂_nil_left_iff]
    exact Option.some_inj.trans eq_comm
  | cons x xs inductionHypothesis =>
    simp only [List.mapM_cons, List.forall₂_cons_left_iff, ← inductionHypothesis, Option.bind_eq_bind,
      Option.bind_eq_some_iff, Option.pure_def, Option.some_inj]
    constructor
    · rintro ⟨y, first, rest, others, rfl⟩
      exact ⟨y, rest, first, others, rfl⟩
    · rintro ⟨y, rest, first, others, rfl⟩
      exact ⟨y, first, rest, others, rfl⟩

theorem commonShape_of_broadcast? (nonempty : shapes ≠ []) (found : broadcast? shapes = some out) :
    CommonShape shapes out := by
  obtain ⟨longest, inside, rank, short⟩ := exists_longest nonempty
  have axes := mapM_eq_some.1 found
  have lengths := axes.length_eq
  rw [List.length_reverse, List.length_range] at lengths
  have axis : ∀ k < out.length, commonExtent? (alignedExtents shapes k) = some (extentAt out k) := by
    intro k bound
    have known := extentAt_of_lt bound
    obtain ⟨here, entry⟩ := List.getElem?_eq_some_iff.1 known
    have each := (List.forall₂_iff_get.1 axes).2 (out.length - 1 - k) (by simpa [lengths] using here) here
    rw [List.get_eq_getElem, List.get_eq_getElem, List.getElem_reverse, List.getElem_range, entry] at each
    have back : greatestRank shapes - 1 - (out.length - 1 - k) = k := by omega
    rwa [List.length_range, back] at each
  refine commonShape_iff.2 ⟨fun shape member => stretchesTo_iff.2 ⟨lengths ▸ short shape member, fun k => ?_⟩,
    ⟨longest, inside, rank.trans lengths⟩, fun k => ?_⟩
  · rcases Nat.lt_or_ge k shape.length with bound | beyond
    · obtain ⟨fits, -⟩ := commonExtent?_eq_some (axis k (bound.trans_le (lengths ▸ short shape member)))
      exact fits _ (mem_alignedExtents.2 ⟨shape, member, getElem?_reverse_of_lt bound⟩)
    · exact .inr (extentAt_of_ge beyond)
  · rcases Nat.lt_or_ge k out.length with bound | beyond
    · obtain ⟨fits, attained⟩ := commonExtent?_eq_some (axis k bound)
      rcases attained with listed | one
      · obtain ⟨shape, member, known⟩ := mem_alignedExtents.1 listed
        exact ⟨shape, member, extentAt_of_mem known⟩
      · -- All extents on this axis are 1, those of the longest shape as well.
        have first := fits _ (mem_alignedExtents.2 ⟨longest, inside, getElem?_reverse_of_lt (by omega)⟩)
        exact ⟨longest, inside, by omega⟩
    · exact ⟨longest, inside, by rw [extentAt_of_ge beyond, extentAt_of_ge (by omega)]⟩

theorem clash_of_broadcast? (missing : broadcast? shapes = none) : ∃ a ∈ shapes, ∃ b ∈ shapes, Clash a b := by
  have failed : ∃ k, commonExtent? (alignedExtents shapes k) = none := by
    by_contra each
    push Not at each
    have found : broadcast? shapes = some _ := mapM_some
      (g := fun k => (commonExtent? (alignedExtents shapes k)).getD 0) fun k _ => by
        obtain ⟨n, known⟩ := Option.ne_none_iff_exists'.1 (each k)
        rw [known, Option.getD_some]
    rw [missing] at found
    cases found
  obtain ⟨k, failed⟩ := failed
  obtain ⟨s, sListed, n, nListed, different⟩ := commonExtent?_eq_none failed
  obtain ⟨a, aMember, aKnown⟩ := mem_alignedExtents.1 sListed
  obtain ⟨b, bMember, bKnown⟩ := mem_alignedExtents.1 nListed
  refine ⟨a, aMember, b, bMember, k, ?_⟩
  rwa [extentAt_of_mem aKnown, extentAt_of_mem bKnown]

/-- There is a common shape unless two of the shapes clash. -/
theorem exists_commonShape_iff (nonempty : shapes ≠ []) :
    (∃ out, CommonShape shapes out) ↔ ¬ ∃ a ∈ shapes, ∃ b ∈ shapes, Clash a b := by
  refine ⟨fun ⟨out, common⟩ ⟨a, aMember, b, bMember, clash⟩ =>
    not_clash (common.stretches a aMember) (common.stretches b bMember) clash, fun fits => ?_⟩
  cases found : broadcast? shapes with
  | none => exact absurd (clash_of_broadcast? found) fits
  | some out => exact ⟨out, commonShape_of_broadcast? nonempty found⟩

theorem exists_commonShape_of_bound (nonempty : shapes ≠ []) (bound : ∀ shape ∈ shapes, StretchesTo shape b) :
    ∃ out, CommonShape shapes out :=
  (exists_commonShape_iff nonempty).2 fun ⟨a, aMember, c, cMember, clash⟩ =>
    not_clash (bound a aMember) (bound c cMember) clash

/-! ## Outcomes -/

def Refused (outcome : Except Failure (List Int)) : Prop := ∃ given, outcome = .error (.shape (.broadcast given))

/-- The outcome for some shapes: their common shape, or a refusal if there is none. -/
def Settles (shapes : List (List Int)) (outcome : Except Failure (List Int)) : Prop :=
  (∃ out, CommonShape shapes out ∧ outcome = .ok out) ∨ (¬ ∃ out, CommonShape shapes out) ∧ Refused outcome

theorem broadcast_settles (nonempty : shapes ≠ []) : Settles shapes (broadcast shapes) := by
  by_cases there : ∃ out, CommonShape shapes out
  · obtain ⟨out, common⟩ := there
    exact .inl ⟨out, common, broadcast_ok common⟩
  · refine .inr ⟨there, shapes.map fun shape => .list (Datum.ints shape), ?_⟩
    cases found : broadcast? shapes with
    | none =>
      unfold broadcast
      rw [found, if_neg (by simpa using nonempty)]
      rfl
    | some out => exact absurd ⟨out, commonShape_of_broadcast? nonempty found⟩ there

theorem CommonShape.congr {others : List (List Int)} (same : ∀ shape, shape ∈ others ↔ shape ∈ shapes)
    (common : CommonShape shapes out) : CommonShape others out := by
  obtain ⟨stretches, ⟨longest, inside, rank⟩, attained⟩ := common
  refine ⟨fun shape member => stretches shape ((same shape).1 member), ⟨longest, (same longest).2 inside, rank⟩,
    fun k bound => ?_⟩
  obtain ⟨shape, member, known⟩ := attained k bound
  exact ⟨shape, (same shape).2 member, known⟩

def Agree (first second : Except Failure (List Int)) : Prop :=
  (∃ out, first = .ok out ∧ second = .ok out) ∨ Refused first ∧ Refused second

theorem Settles.agree {others : List (List Int)} {first second : Except Failure (List Int)}
    (one : Settles shapes first) (other : Settles others second)
    (same : ∀ shape, shape ∈ others ↔ shape ∈ shapes) : Agree second first := by
  rcases one with ⟨out, common, rfl⟩ | ⟨none, refused⟩
  · rcases other with ⟨out', common', rfl⟩ | ⟨none', -⟩
    · have found := (broadcast_ok (common.congr same)).symm.trans (broadcast_ok common')
      exact .inl ⟨out', rfl, found⟩
    · exact absurd ⟨out, common.congr same⟩ none'
  · rcases other with ⟨out', common', rfl⟩ | ⟨-, refused'⟩
    · exact absurd ⟨out', common'.congr fun shape => (same shape).symm⟩ none
    · exact .inr ⟨refused', refused⟩

/-! ## Groups -/

/-- How shapes are put together: a shape by itself, or a group of parts that is broadcast as soon as its parts are. -/
inductive Grouping where
  | alone (shape : List Int)
  | group (first : Grouping) (rest : List Grouping)

namespace Grouping

mutual

def members : Grouping → List (List Int)
  | alone shape => [shape]
  | group first rest => first.members ++ membersOf rest

def membersOf : List Grouping → List (List Int)
  | [] => []
  | part :: rest => part.members ++ membersOf rest

end

mutual

def outcome : Grouping → Except Failure (List Int)
  | alone shape => pure shape
  | group first rest => do broadcast ((← first.outcome) :: (← outcomes rest))

/-- The shapes that come out of several groupings, unless one is refused. -/
def outcomes : List Grouping → Except Failure (List (List Int))
  | [] => pure []
  | part :: rest => do return (← part.outcome) :: (← outcomes rest)

end

theorem mem_membersOf {parts : List Grouping} : shape ∈ membersOf parts ↔ ∃ part ∈ parts, shape ∈ part.members := by
  induction parts with
  | nil => simp [membersOf]
  | cons part rest inductionHypothesis => simp [membersOf, inductionHypothesis]

theorem members_ne_nil : (g : Grouping) → g.members ≠ []
  | alone _ => List.cons_ne_nil _ _
  | group first _ => by simp [members, first.members_ne_nil]

/-- One common shape for each of several groupings. -/
structure Gathered (parts : List Grouping) (outs : List (List Int)) : Prop where
  each : ∀ part ∈ parts, ∃ out ∈ outs, CommonShape part.members out
  only : ∀ out ∈ outs, ∃ part ∈ parts, CommonShape part.members out

/-- The outcomes of several groupings: a common shape for each, or a refusal because one has none. -/
def SettleAll (parts : List Grouping) (outcome : Except Failure (List (List Int))) : Prop :=
  (∃ outs, Gathered parts outs ∧ outcome = .ok outs)
    ∨ (∃ part ∈ parts, ¬ ∃ out, CommonShape part.members out)
      ∧ ∃ given, outcome = .error (.shape (.broadcast given))

variable {parts : List Grouping} {outs : List (List Int)}

theorem Gathered.cons {part : Grouping} (common : CommonShape part.members out) (gathered : Gathered parts outs) :
    Gathered (part :: parts) (out :: outs) where
  each := by
    refine List.forall_mem_cons.2 ⟨⟨out, List.mem_cons_self .., common⟩, fun other member => ?_⟩
    obtain ⟨o, listed, known⟩ := gathered.each other member
    exact ⟨o, List.mem_cons_of_mem _ listed, known⟩
  only := by
    refine List.forall_mem_cons.2 ⟨⟨part, List.mem_cons_self .., common⟩, fun o listed => ?_⟩
    obtain ⟨other, member, known⟩ := gathered.only o listed
    exact ⟨other, List.mem_cons_of_mem _ member, known⟩

theorem Gathered.ne_nil (gathered : Gathered parts outs) (nonempty : parts ≠ []) : outs ≠ [] := by
  obtain ⟨part, member⟩ := List.exists_mem_of_ne_nil parts nonempty
  obtain ⟨o, listed, -⟩ := gathered.each part member
  exact List.ne_nil_of_mem listed

theorem SettleAll.cons {part : Grouping} {first : Except Failure (List Int)} {rest : Except Failure (List (List Int))}
    (one : Settles part.members first) (others : SettleAll parts rest) :
    SettleAll (part :: parts) (do return (← first) :: (← rest)) := by
  rcases one with ⟨out, common, rfl⟩ | ⟨none, given, rfl⟩
  · rcases others with ⟨outs, gathered, rfl⟩ | ⟨⟨other, member, none⟩, given, rfl⟩
    · exact .inl ⟨out :: outs, .cons common gathered, rfl⟩
    · exact .inr ⟨⟨other, List.mem_cons_of_mem _ member, none⟩, given, rfl⟩
  · exact .inr ⟨⟨part, List.mem_cons_self .., none⟩, given, rfl⟩

theorem Gathered.commonShape (gathered : Gathered parts outs) (common : CommonShape outs out) :
    CommonShape (membersOf parts) out := by
  obtain ⟨stretches, ⟨longest, inside, rank⟩, attained⟩ := commonShape_iff.1 common
  refine commonShape_iff.2 ⟨fun shape listed => ?_, ?_, fun k => ?_⟩
  · obtain ⟨part, member, here⟩ := mem_membersOf.1 listed
    obtain ⟨o, known, partCommon⟩ := gathered.each part member
    exact (partCommon.stretches shape here).trans (stretches o known)
  · obtain ⟨part, member, partCommon⟩ := gathered.only longest inside
    obtain ⟨shape, here, same⟩ := partCommon.rank
    exact ⟨shape, mem_membersOf.2 ⟨part, member, here⟩, same.trans rank⟩
  · obtain ⟨o, known, same⟩ := attained k
    obtain ⟨part, member, partCommon⟩ := gathered.only o known
    obtain ⟨shape, here, reached⟩ := (commonShape_iff.1 partCommon).2.2 k
    exact ⟨shape, mem_membersOf.2 ⟨part, member, here⟩, reached.trans same⟩

/-- If all shapes have a common one, those of each part have, and the shapes that come out of the parts. -/
theorem Gathered.exists_commonShape (gathered : Gathered parts outs) (nonempty : parts ≠ [])
    (there : CommonShape (membersOf parts) out) : ∃ out, CommonShape outs out := by
  have bound : ∀ o ∈ outs, StretchesTo o out := fun o listed => by
    obtain ⟨part, member, common⟩ := gathered.only o listed
    exact common.least fun shape here => there.stretches shape (mem_membersOf.2 ⟨part, member, here⟩)
  exact exists_commonShape_of_bound (gathered.ne_nil nonempty) bound

theorem SettleAll.broadcast {outcome : Except Failure (List (List Int))} (settled : SettleAll parts outcome)
    (nonempty : parts ≠ []) : Settles (membersOf parts) (outcome >>= Shape.broadcast) := by
  rcases settled with ⟨outs, gathered, rfl⟩ | ⟨⟨part, member, none⟩, given, rfl⟩
  · rcases broadcast_settles (gathered.ne_nil nonempty) with ⟨out, common, known⟩ | ⟨none, refused⟩
    · exact .inl ⟨out, gathered.commonShape common, known⟩
    · exact .inr ⟨fun ⟨out, there⟩ => none (gathered.exists_commonShape nonempty there), refused⟩
  · refine .inr ⟨fun ⟨out, there⟩ => none ?_, given, rfl⟩
    exact exists_commonShape_of_bound part.members_ne_nil fun shape here =>
      there.stretches shape (mem_membersOf.2 ⟨part, member, here⟩)

mutual

/-- Broadcasting groups first makes no difference. -/
theorem settles : (g : Grouping) → Settles g.members g.outcome
  | alone shape => .inl ⟨shape, commonShape_single shape, rfl⟩
  | group first rest => by
    have all : SettleAll (first :: rest) (do return (← first.outcome) :: (← outcomes rest)) :=
      .cons first.settles (settleAll rest)
    have settled := all.broadcast (List.cons_ne_nil _ _)
    simp only [bind_assoc, pure_bind] at settled
    exact settled

theorem settleAll : (parts : List Grouping) → SettleAll parts (outcomes parts)
  | [] => .inl ⟨[], ⟨nofun, nofun⟩, rfl⟩
  | part :: rest => .cons part.settles (settleAll rest)

end

end Grouping

/-! ## The laws -/

/-- A contiguous layout is stretched to the common shape, and shows the element that was at the last indices, those on
    axes of extent 1 taken for 0. -/
theorem CommonShape.stretch_contiguous (common : CommonShape shapes out)
    (natural : ∀ shape ∈ shapes, ∀ s ∈ shape, 0 ≤ s) {l : Layout} (contiguous : l.contiguous = true)
    (member : l.shape ∈ shapes) :
    ∃ r, l.stretch out = .ok r ∧ r.shape = out ∧ ∀ index, Inside index out →
      ∃ offset, r.address index = .ok (some offset) ∧ l.address (aligned l.shape index) = .ok (some offset) := by
  have anchored : l.Anchored (product l.shape) := by
    have whole := Layout.anchored_rowMajor (natural l.shape member)
    rwa [← Layout.eq_rowMajor_of_contiguous contiguous] at whole
  have stretches := common.stretches l.shape member
  obtain ⟨r, done, shape, -, shows⟩ := anchored.stretch stretches (common.natural natural)
  refine ⟨r, done, shape, fun index inside => ?_⟩
  have before := stretches.inside_aligned inside
  have known := Layout.offsetOf?_of_contiguous contiguous before
  exact ⟨_, by rw [Layout.address_eq (shape ▸ inside), shows index inside, known], by
    rw [Layout.address_eq before, known]⟩

/-- Broadcasting is refused just if two of the shapes clash. Otherwise the common shape has the greatest rank, and on
    each axis the extent that is not 1, if there is one. The order and the grouping of the shapes make no difference,
    nor does it how often one is given. Contiguous layouts of these shapes can be stretched to the common shape, and
    show what they showed. -/
theorem broadcast_lawful (nonempty : shapes ≠ []) (natural : ∀ shape ∈ shapes, ∀ s ∈ shape, 0 ≤ s) :
    (Refused (broadcast shapes) ↔ ∃ a ∈ shapes, ∃ b ∈ shapes, Clash a b)
    ∧ ((¬ ∃ a ∈ shapes, ∃ b ∈ shapes, Clash a b) → ∃ out, broadcast shapes = .ok out
      ∧ (∃ longest ∈ shapes, longest.length = out.length ∧ ∀ shape ∈ shapes, shape.length ≤ longest.length)
      ∧ (∀ k, (∀ shape ∈ shapes, extentAt shape k ≠ 1 → extentAt out k = extentAt shape k)
        ∧ ((∀ shape ∈ shapes, extentAt shape k = 1) → extentAt out k = 1))
      ∧ ∀ l : Layout, l.contiguous = true → l.shape ∈ shapes →
        ∃ r, l.stretch out = .ok r ∧ r.shape = out ∧ ∀ index, Inside index out →
          ∃ offset, r.address index = .ok (some offset)
            ∧ l.address (aligned l.shape index) = .ok (some offset))
    ∧ ∀ g : Grouping, (∀ shape, shape ∈ g.members ↔ shape ∈ shapes) → Agree g.outcome (broadcast shapes) := by
  have settled := broadcast_settles nonempty
  refine ⟨⟨fun ⟨given, refused⟩ => ?_, fun clash => ?_⟩, fun fits => ?_, fun g same => settled.agree g.settles same⟩
  · rcases settled with ⟨out, -, found⟩ | ⟨none, -⟩
    · rw [found] at refused
      cases refused
    · exact by_contra fun fits => none ((exists_commonShape_iff nonempty).2 fits)
  · rcases settled with ⟨out, common, -⟩ | ⟨-, refused⟩
    · exact absurd clash ((exists_commonShape_iff nonempty).1 ⟨out, common⟩)
    · exact refused
  · obtain ⟨out, common⟩ := (exists_commonShape_iff nonempty).2 fits
    obtain ⟨stretches, ⟨longest, inside, rank⟩, attained⟩ := commonShape_iff.1 common
    refine ⟨out, broadcast_ok common, ⟨longest, inside, rank, fun shape member =>
      rank ▸ (stretches shape member).length_le⟩, fun k => ⟨fun shape member other => ?_, fun ones => ?_⟩,
      fun l contiguous member => common.stretch_contiguous natural contiguous member⟩
    · exact (((stretchesTo_iff.1 (stretches shape member)).2 k).resolve_right other).symm
    · obtain ⟨shape, member, same⟩ := attained k
      exact same.symm.trans (ones shape member)

/-- A column and an empty row have an empty common shape, in whatever order and however often they are given. -/
theorem broadcast_lawful_emptyRow :
    [[3, 1], [0]] ≠ ([] : List (List Int)) ∧ (∀ shape ∈ [[3, 1], [0]], ∀ s ∈ shape, (0 : Int) ≤ s)
      ∧ broadcast [[3, 1], [0]] = .ok [3, 0]
      ∧ ∀ g : Grouping, (∀ shape, shape ∈ g.members ↔ shape ∈ [[3, 1], [0]]) → g.outcome = .ok [3, 0] := by
  have nonempty : [[3, 1], [0]] ≠ ([] : List (List Int)) := by decide
  have natural : ∀ shape ∈ [[3, 1], [0]], ∀ s ∈ shape, (0 : Int) ≤ s := by decide
  have found : broadcast [[3, 1], [0]] = .ok [3, 0] := rfl
  refine ⟨nonempty, natural, found, fun g same => ?_⟩
  rcases (broadcast_lawful nonempty natural).2.2 g same with ⟨out, here, there⟩ | ⟨-, given, refused⟩
  · rwa [← there, found] at here
  · rw [found] at refused
    cases refused

end StridedArray.Shape
