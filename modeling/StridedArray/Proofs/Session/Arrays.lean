import StridedArray.Proofs.Session.Runs
import StridedArray.Tensor.Upload

/-! # Arrays of integers on the host

* `Backs` — the bytes of a live array; `Holds` — its shape and elements; `Fresh` — the same for an array
  in a buffer of its own, as uploads leave it; `Seen` — its elements through another layout;
* `Extends` — a later session in which all arrays and buffers are still there;
* `withArray` — one more array; `runs_place`, `runs_uploads` — uploads make fresh arrays;
* `runs_moved`, `runs_dispose` — another view of an array, and the end of an array; `runs_replace`,
  `runs_replaceLast` — a view that takes the place of an array. -/

namespace StridedArray.Session

open Layout (rowMajor)
open Shape (Inside Positive product ravel unravel)

/-! ## Arrays and their elements -/

/-- A live array of integers of a host executor, whose buffer holds the bytes. -/
structure Backs (s : Session) (owner : Nat) (t : Tensor) (bytes : Bytes) : Prop where
  live : t.disposed = false
  kind : t.kind = .int32
  owner : t.handle.owner = owner
  words : bytes.size % 4 = 0
  stored : s.Stores t.handle 1 bytes

/-- An array of integers with its shape and its elements. It is seen through a layout that was moved from
    the one of a whole array. -/
def Holds (s : Session) (owner : Nat) (r : TensorRef) (shape : List Int) (x : List Int → Int) : Prop :=
  ∃ t bytes, s.tensors[r.number]? = some t ∧ s.Backs owner t bytes
    ∧ t.layout.Over (bytes.size / 4 : Nat) ∧ t.layout.shape = shape
    ∧ ∀ index, Inside index shape → t.layout.entry (intAt bytes) index = x index

/-- An array of integers as an upload leaves it: all of its buffer, in row-major order. -/
def Fresh (s : Session) (owner : Nat) (r : TensorRef) (shape : List Int) (x : List Int → Int) : Prop :=
  ∃ t bytes, s.tensors[r.number]? = some t ∧ s.Backs owner t bytes ∧ t.layout = rowMajor shape
    ∧ (bytes.size : Int) = product shape * 4
    ∧ ∀ index, Inside index shape → intAt bytes (ravel index shape) = x index

/-- The elements of a live array through a layout of its buffer, which need not be its own one. -/
structure Seen (s : Session) (owner : Nat) (t : Tensor) (bytes : Bytes) (l : Layout) (shape : List Int)
    (x : List Int → Int) : Prop where
  backs : s.Backs owner t bytes
  laid : l.Over (bytes.size / 4 : Nat)
  extents : l.shape = shape
  entries : ∀ index, Inside index shape → l.entry (intAt bytes) index = x index

variable {s s' s'' : Session} {owner : Nat} {r : TensorRef} {shape : List Int} {x y : List Int → Int}

theorem Seen.positive {t : Tensor} {bytes : Bytes} {l : Layout} (seen : s.Seen owner t bytes l shape x) :
    Positive shape :=
  seen.extents ▸ seen.laid.clear.positive

theorem Holds.seen (holds : s.Holds owner r shape x) :
    ∃ t bytes, s.tensors[r.number]? = some t ∧ s.Seen owner t bytes t.layout shape x := by
  obtain ⟨t, bytes, known, backs, laid, extents, entries⟩ := holds
  exact ⟨t, bytes, known, backs, laid, extents, entries⟩

theorem entry_rowMajor {index : List Int} (inside : Inside index shape) (content : Int → Int) :
    (rowMajor shape).entry content index = content (ravel index shape) := by
  unfold Layout.entry
  rw [Layout.offsetOf?_rowMajor inside]

theorem Fresh.seen (fresh : s.Fresh owner r shape x) (positive : Positive shape) :
    ∃ t bytes, s.tensors[r.number]? = some t ∧ t.layout = rowMajor shape
      ∧ s.Seen owner t bytes t.layout shape x := by
  obtain ⟨t, bytes, known, backs, whole, size, elements⟩ := fresh
  have count : ((bytes.size / 4 : Nat) : Int) = product shape := by omega
  refine ⟨t, bytes, known, whole, backs, ?_, by rw [whole]; rfl, fun index inside => ?_⟩
  · rw [whole, count]
    exact Layout.over_rowMajor positive
  · rw [whole, entry_rowMajor inside, elements index inside]

theorem Fresh.holds (fresh : s.Fresh owner r shape x) (positive : Positive shape) :
    s.Holds owner r shape x := by
  obtain ⟨t, bytes, known, _, backs, laid, extents, entries⟩ := fresh.seen positive
  exact ⟨t, bytes, known, backs, laid, extents, entries⟩

theorem Fresh.congr (fresh : s.Fresh owner r shape x) (same : ∀ index, Inside index shape → x index = y index) :
    s.Fresh owner r shape y := by
  obtain ⟨t, bytes, known, backs, whole, size, elements⟩ := fresh
  exact ⟨t, bytes, known, backs, whole, size, fun index inside =>
    (elements index inside).trans (same index inside)⟩

/-! ## Later sessions -/

/-- All arrays and buffers of a session are still there. -/
structure Extends (s s' : Session) : Prop where
  arrays : ∀ {n : Nat} {t : Tensor}, s.tensors[n]? = some t → s'.tensors[n]? = some t
  buffers : ∀ {h : Handle} {bytes : Bytes}, s.Stores h 1 bytes → s'.Stores h 1 bytes

theorem Extends.trans (first : s.Extends s') (second : s'.Extends s'') : s.Extends s'' :=
  ⟨fun known => second.arrays (first.arrays known), fun stored => second.buffers (first.buffers stored)⟩

theorem Backs.later {t : Tensor} {bytes : Bytes} (backs : s.Backs owner t bytes) (later : s.Extends s') :
    s'.Backs owner t bytes :=
  { backs with stored := later.buffers backs.stored }

theorem Fresh.later (fresh : s.Fresh owner r shape x) (later : s.Extends s') :
    s'.Fresh owner r shape x := by
  obtain ⟨t, bytes, known, backs, rest⟩ := fresh
  exact ⟨t, bytes, later.arrays known, backs.later later, rest⟩

/-! ## New arrays -/

/-- The session with one more array of integers: a new buffer of a host executor, seen through the
    layout. -/
def withArray (s : Session) (owner : Nat) (x : Host) (bytes : Bytes) (layout : Layout) : Session :=
  let s' := s.withHost owner ⟨(x.table.allocate bytes.size bytes).2⟩
  { s' with tensors := s'.tensors.push ⟨⟨owner, x.table.slots.size⟩, layout, .int32, false⟩ }

theorem runs_adopt (s : Session) (h : Handle) (layout : Layout) (kind : Element) :
    Runs (adopt h layout kind) s ⟨s.tensors.size⟩
      { s with tensors := s.tensors.push ⟨h, layout, kind, false⟩ } := rfl

theorem HasHost.extends_withArray {x : Host} (has : s.HasHost owner x) (bytes : Bytes) (layout : Layout) :
    s.Extends (s.withArray owner x bytes layout) := by
  constructor
  · intro n t known
    obtain ⟨bound, _⟩ := Array.getElem?_eq_some_iff.1 known
    exact (Array.getElem?_push_lt bound).trans ((Array.getElem?_eq_getElem bound).symm.trans known)
  · intro h held stored
    have kept : (s.withHost owner ⟨(x.table.allocate bytes.size bytes).2⟩).Stores h 1 held :=
      stored.withHost has has.owner fun _ inTable => inTable.allocate ..
    exact kept.samePool rfl

theorem HasHost.hasHost_withArray {x : Host} (has : s.HasHost owner x) (bytes : Bytes) (layout : Layout) :
    (s.withArray owner x bytes layout).HasHost owner ⟨(x.table.allocate bytes.size bytes).2⟩ := by
  have next : (s.withHost owner ⟨(x.table.allocate bytes.size bytes).2⟩).HasHost owner
      ⟨(x.table.allocate bytes.size bytes).2⟩ := has.withHost has.owner
  exact ⟨next.found, next.owner⟩

theorem HasHost.fresh_withArray {x : Host} (has : s.HasHost owner x) {bytes : Bytes} {v : List Int → Int}
    (size : (bytes.size : Int) = product shape * 4)
    (elements : ∀ index, Inside index shape → intAt bytes (ravel index shape) = v index) :
    (s.withArray owner x bytes (rowMajor shape)).Fresh owner ⟨s.tensors.size⟩ shape v := by
  refine ⟨⟨⟨owner, x.table.slots.size⟩, rowMajor shape, .int32, false⟩, bytes, by simp [withArray], ?_,
    rfl, size, elements⟩
  have stored : (s.withHost owner ⟨(x.table.allocate bytes.size bytes).2⟩).Stores
      ⟨owner, x.table.slots.size⟩ 1 bytes :=
    ⟨_, has.withHost has.owner, Table.stores_allocate bytes⟩
  exact ⟨rfl, rfl, rfl, by omega, stored.samePool rfl⟩

def uploaded (shape values : List Int) (index : List Int) : Int :=
  wrap32 (values[(ravel index shape).toNat]?.getD 0)

/-- Uploading integers makes a fresh array. -/
theorem runs_place [Room] {z : Host} (has : s.HasHost owner z) {source : Source} {values : List Int}
    (elements : source.elements .int32 = .ok (values.map Scalar.int)) (words : ∀ n ∈ values, Word n)
    (positive : Positive source.shape) (count : (values.length : Int) = product source.shape) :
    Runs (place source .int32 owner) s ⟨s.tensors.size⟩
        (s.withArray owner z (bytesOf values) (rowMajor source.shape))
      ∧ (s.withArray owner z (bytesOf values) (rowMajor source.shape)).Fresh owner ⟨s.tensors.size⟩
        source.shape (uploaded source.shape values) := by
  constructor
  · have layout := Layout.ofShape_ok positive
    exact (runs_ofResult elements).bind ((runs_ofResult (encodeAll_ints words)).bind
      ((runs_allocate_some has (bytesOf values)).bind ((runs_ofResult layout).bind
        (runs_adopt ..))))
  · refine has.fresh_withArray (by rw [size_bytesOf]; omega) fun index inside => ?_
    obtain ⟨low, high⟩ := inside.ravel_bounds
    have bound : (ravel index source.shape).toNat < values.length := by omega
    have place : ((ravel index source.shape).toNat : Int) = ravel index source.shape :=
      Int.toNat_of_nonneg low
    have element := intAt_bytesOf bound
    rw [place] at element
    rw [element, uploaded, List.getElem?_eq_getElem bound]
    rfl

def ofInts (shape values : List Int) : Source :=
  ⟨shape, .ofForm (.signed 8), values.map fun n => .scalar (.int n)⟩

theorem elements_ofInts (shape values : List Int) :
    (ofInts shape values).elements .int32 = .ok ((values.map wrap32).map Scalar.int) := by
  show (values.map fun n => Held.scalar (.int n)).mapM (Held.store .int32) = _
  rw [mapM_eq_ok, List.map_map, List.forall₂_map_left_iff, List.forall₂_map_right_iff, List.forall₂_same]
  exact fun n _ => rfl

theorem uploaded_wrap32 (shape values : List Int) :
    uploaded shape (values.map wrap32) = uploaded shape values := by
  funext index
  unfold uploaded
  rw [List.getElem?_map]
  cases values[(ravel index shape).toNat]? with
  | none => rfl
  | some n => exact wrap32_wrap32 n

/-- Several arrays that are uploaded one after the other are all fresh afterwards. -/
theorem runs_uploads [Room] {arrays : List (List Int × List Int)} {z : Host} (has : s.HasHost owner z)
    (sized : ∀ a ∈ arrays, Positive a.1 ∧ (a.2.length : Int) = product a.1) :
    ∃ s', Runs (arrays.mapM fun a => place (ofInts a.1 a.2) .int32 owner) s
        ((List.range' s.tensors.size arrays.length).map TensorRef.mk) s'
      ∧ s.Extends s'
      ∧ ∀ {k : Nat} {shape values : List Int}, arrays[k]? = some (shape, values) →
        s'.Fresh owner ⟨s.tensors.size + k⟩ shape (uploaded shape values) := by
  induction arrays generalizing s z with
  | nil => exact ⟨s, runs_pure _ s, ⟨id, id⟩, fun known => by simp at known⟩
  | cons a arrays inductionHypothesis =>
    obtain ⟨shape, values⟩ := a
    obtain ⟨⟨positive, count⟩, others⟩ := List.forall_mem_cons.1 sized
    have words : ∀ n ∈ values.map wrap32, Word n := List.forall_mem_map.2 fun n _ => word_wrap32 n
    obtain ⟨placed, fresh⟩ := runs_place has (elements_ofInts shape values) words positive
      (by rw [List.length_map]; exact count)
    have later := has.extends_withArray (bytesOf (values.map wrap32)) (rowMajor shape)
    obtain ⟨s', runs, laterStill, rest⟩ := inductionHypothesis
      (has.hasHost_withArray (bytesOf (values.map wrap32)) (rowMajor shape)) others
    have size : (s.withArray owner z (bytesOf (values.map wrap32)) (rowMajor shape)).tensors.size
        = s.tensors.size + 1 := by
      simp [withArray]
    rw [size] at runs rest
    refine ⟨s', ?_, later.trans laterStill, ?_⟩
    · rw [List.mapM_cons, List.length_cons, List.range'_succ, List.map_cons]
      exact placed.bind (runs.bind (runs_pure ..))
    · intro k shape' values' known
      cases k with
      | zero =>
        cases known
        rw [uploaded_wrap32] at fresh
        exact fresh.later laterStill
      | succ k =>
        rw [Nat.add_comm k, ← Nat.add_assoc]
        exact rest known

def onHost : Session := { pool := { executors := #[.host (.fresh 0)] } }

theorem hasHost_onHost : onHost.HasHost 0 (.fresh 0) := ⟨rfl, rfl⟩

/-! ## Reading -/

theorem Stores.runs_readBuffer [Room] {h : Handle} {least : Nat} {bytes : Bytes}
    (stores : s.Stores h least bytes) : Runs (readBuffer h) s bytes s := by
  obtain ⟨z, has, refs, _, slot⟩ := stores
  have read := has.runs (f := fun z => z.read h) (a := bytes) (y := z) (by
    unfold Executor.read
    dsimp only
    rw [Table.lookup_ok has.owner.symm slot]
    rfl)
  rwa [has.withHost_self] at read

/-! ## Views -/

section Views

variable {t : Tensor} {bytes : Bytes} {l : Layout} {f : Layout → Except Failure Layout}

/-- Another view of an array adds a reference to its buffer. -/
theorem runs_moved (known : s.tensors[r.number]? = some t) (live : t.disposed = false)
    (held : s.Stores t.handle 1 bytes) (layout : f t.layout = .ok l) :
    ∃ s', Runs (moved r f) s ⟨s.tensors.size⟩ s'
      ∧ s'.tensors = s.tensors.push ⟨t.handle, l, t.kind, false⟩ ∧ s'.Stores t.handle 2 bytes
      ∧ ∀ {h b}, s.Stores h 1 b → s'.Stores h 1 b := by
  obtain ⟨retained, runs, tensors, stored, kept⟩ := held.runs_retain
  refine ⟨{ retained with tensors := retained.tensors.push ⟨t.handle, l, t.kind, false⟩ }, ?_, ?_, ?_, ?_⟩
  · refine (runs_find known).bind ((runs_ofResult layout).bind
      ((runs_requireLive live).bind (runs.bind ?_)))
    rw [← tensors]
    exact runs_adopt ..
  · rw [tensors]
  · exact stored.samePool rfl
  · exact fun other => (kept other).samePool rfl

/-- The end of an array whose buffer is used by another one. -/
theorem runs_dispose (known : s.tensors[r.number]? = some t) (live : t.disposed = false)
    (stored : s.Stores t.handle 2 bytes) :
    ∃ s', Runs (dispose r) s () s' ∧ (∀ n ≠ r.number, s'.tensors[n]? = s.tensors[n]?)
      ∧ ∀ {h b}, s.Stores h 1 b → s'.Stores h 1 b := by
  let marked : Session := { s with
    tensors := s.tensors.modify r.number fun t => { t with disposed := true } }
  have still : marked.Stores t.handle 2 bytes := stored.samePool rfl
  obtain ⟨s', runs, tensors, kept⟩ := still.runs_release
  refine ⟨s', ?_, ?_, fun other => kept (other.samePool rfl)⟩
  · have marks : Runs (modify fun s : Session => { s with
        tensors := s.tensors.modify r.number fun t => { t with disposed := true } }) s () marked := rfl
    exact ((runs_find known).bind ((runs_requireLive live).bind (runs_pure t s))).bind
      (marks.bind runs)
  · intro n other
    rw [tensors]
    exact Array.getElem?_modify.trans (if_neg other.symm)

/-- A view that takes the place of an array. -/
theorem runs_replace (known : s.tensors[r.number]? = some t) (live : t.disposed = false)
    (held : s.Stores t.handle 1 bytes) (layout : f t.layout = .ok l) :
    ∃ s', Runs (do
        let v ← moved r f
        dispose r
        return v) s ⟨s.tensors.size⟩ s'
      ∧ (∀ n ≠ r.number, n < s.tensors.size → s'.tensors[n]? = s.tensors[n]?)
      ∧ (∀ {h b}, s.Stores h 1 b → s'.Stores h 1 b)
      ∧ s'.tensors[s.tensors.size]? = some ⟨t.handle, l, t.kind, false⟩ := by
  obtain ⟨viewed, moves, tensors, stored, keptView⟩ := runs_moved known live held layout
  obtain ⟨bound, _⟩ := Array.getElem?_eq_some_iff.1 known
  have before : ∀ n < s.tensors.size, viewed.tensors[n]? = s.tensors[n]? := by
    intro n below
    rw [tensors, Array.getElem?_push_lt below, Array.getElem?_eq_getElem below]
  obtain ⟨s', ends, others, kept⟩ := runs_dispose ((before _ bound).trans known) live stored
  refine ⟨s', moves.bind (ends.bind (runs_pure ..)), ?_, fun other => kept (keptView other), ?_⟩
  · exact fun n other below => (others n other).trans (before n below)
  · rw [others _ (by omega), tensors]
    exact Array.getElem?_push_size ..

/-- A view takes the place of an array that was computed last. Only that array is gone, and it was not there
    before. -/
theorem runs_replaceLast {computed : Session} (later : s.Extends computed)
    (result : computed.tensors[s.tensors.size]? = some t) (live : t.disposed = false)
    (held : computed.Stores t.handle 1 bytes) (layout : f t.layout = .ok l) :
    ∃ s', Runs (do
        let v ← moved ⟨s.tensors.size⟩ f
        dispose ⟨s.tensors.size⟩
        return v) computed ⟨computed.tensors.size⟩ s'
      ∧ s.Extends s'
      ∧ s'.tensors[computed.tensors.size]? = some ⟨t.handle, l, t.kind, false⟩
      ∧ s'.Stores t.handle 1 bytes := by
  obtain ⟨s', replaces, others, kept, last⟩ :=
    @runs_replace computed ⟨s.tensors.size⟩ _ _ _ f result live held layout
  refine ⟨s', replaces, ⟨fun {n _} earlier => ?_, fun stored => kept (later.buffers stored)⟩, last, kept held⟩
  have here := later.arrays earlier
  have before := (Array.getElem?_eq_some_iff.1 earlier).1
  rw [others n (Nat.ne_of_lt before) (Array.getElem?_eq_some_iff.1 here).1, here]

end Views

end StridedArray.Session
