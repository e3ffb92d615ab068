import StridedArray.Readback

/-! # Reading back through an image

Both ways of reading buffers back give their bytes. The image in between is cut into rows that are longer than
those of a tile, keeps what was read before, and is filled in whole pixels, of which the last one may be more than
the buffer has.

* `byteAt_setAll`, `pushAll_eq_extract` — the loops that copy one row;
* `Staging.copyTile_eq` — a rectangle through the image: its bytes, whatever the image held;
* `Staging.Covers`, `Staging.covers_tiles` — the rectangles follow each other from the first pixel to the last;
* `Staging.read_eq` — one read; `readEach_eq`, `Readback.readEach_exact` — several reads. -/

namespace StridedArray

/-! ## Copying a row -/

section Rows

variable {source image out : Bytes} {first count : Nat} {f : Nat → UInt8}

theorem byteAt_set {place i : Nat} {b : UInt8} :
    byteAt (image.setIfInBounds i b) place = if i = place ∧ place < image.size then b else byteAt image place := by
  unfold byteAt
  rw [Array.getElem?_setIfInBounds]
  by_cases here : i = place
  · subst here
    by_cases bound : i < image.size <;> simp [bound]
  · simp [here]

def setAll (first : Nat) (f : Nat → UInt8) (image : Bytes) (count : Nat) : Bytes :=
  (List.range count).foldl (fun image i => image.setIfInBounds (first + i) (f i)) image

theorem setAll_succ : setAll first f image (count + 1)
    = (setAll first f image count).setIfInBounds (first + count) (f count) := by
  simp [setAll, List.range_succ]

@[simp] theorem size_setAll : (setAll first f image count).size = image.size := by
  induction count with
  | zero => rfl
  | succ count ih => rw [setAll_succ, Array.size_setIfInBounds, ih]

/-- They are found there, and everything else is left as it was. -/
theorem byteAt_setAll {place : Nat} : byteAt (setAll first f image count) place
    = if first ≤ place ∧ place < first + count ∧ place < image.size then f (place - first)
      else byteAt image place := by
  induction count with
  | zero =>
    rw [if_neg (by omega)]
    rfl
  | succ count ih =>
    rw [setAll_succ, byteAt_set, size_setAll, ih]
    by_cases last : first + count = place
    · subst last
      simp
    · have same : place < first + (count + 1) ↔ place < first + count ∨ place = first + count := by omega
      simp only [last, false_and, if_false, same, Ne.symm last, or_false]

/-- Pushing bytes that are next to each other in a buffer appends this part of it. -/
theorem pushAll_eq_extract (inside : first + count ≤ source.size)
    (same : ∀ i < count, f i = byteAt source (first + i)) :
    (List.range count).foldl (fun out i => out.push (f i)) out
      = out ++ source.extract first (first + count) := by
  rw [List.foldl_push_eq_append]
  congr 1
  apply Array.ext
  · simp only [List.size_toArray, List.length_map, List.length_range, Array.size_extract]
    omega
  · intro i bound _
    have below : i < count := by simpa using bound
    simp only [List.getElem_toArray, List.getElem_map, List.getElem_range, Array.getElem_extract]
    rw [same i below, byteAt, Array.getElem?_eq_getElem (by omega)]
    rfl

end Rows

theorem extract_append_of_le {source : Bytes} {first middle last : Nat} (before : first ≤ middle)
    (behind : middle ≤ last) :
    source.extract first middle ++ source.extract middle last = source.extract first last := by
  rw [Array.extract_append_extract, Nat.min_eq_left before, Nat.max_eq_right behind]

namespace Staging

variable {s : Staging} {source image out : Bytes} {t : Tile}

/-! ## Copying a rectangle -/

/-- An image that has room for all its pixels. What it holds does not matter. -/
structure Ready (s : Staging) : Prop where
  wide : 0 < s.width
  high : 0 < s.height
  room : s.image.size = s.width * s.height * channels

/-- Is a rectangle inside of an image and of a number of pixels? -/
structure Fits (width height pixels : Nat) (t : Tile) : Prop where
  wide : t.width ≤ width
  high : t.height ≤ height
  inside : t.start + t.width * t.height ≤ pixels

theorem rowPlace_lt (wide : t.width ≤ s.width) {row later i : Nat} (before : row < later)
    (column : i < t.width * channels) : s.rowPlace row + i < s.rowPlace later := by
  have next : (row + 1) * s.width * channels ≤ later * s.width * channels :=
    Nat.mul_le_mul_right _ (Nat.mul_le_mul_right _ before)
  have length : t.width * channels ≤ s.width * channels := Nat.mul_le_mul_right _ wide
  have split : (row + 1) * s.width * channels = row * s.width * channels + s.width * channels := by
    rw [Nat.succ_mul, Nat.add_mul]
  unfold rowPlace
  omega

def putRows (s : Staging) (source : Bytes) (t : Tile) (image : Bytes) (rows : Nat) : Bytes :=
  (List.range rows).foldl (s.putRow source t) image

theorem putRow_eq (row : Nat) : s.putRow source t image row
    = setAll (s.rowPlace row) (fun i => byteAt source ((t.start + row * t.width) * channels + i)) image
      (t.width * channels) := rfl

theorem putRows_succ (rows : Nat) :
    s.putRows source t image (rows + 1) = s.putRow source t (s.putRows source t image rows) rows := by
  simp [putRows, List.range_succ]

@[simp] theorem size_putRows (rows : Nat) : (s.putRows source t image rows).size = image.size := by
  induction rows with
  | zero => rfl
  | succ rows ih => rw [putRows_succ, putRow_eq, size_setAll, ih]

theorem byteAt_putRows (wide : t.width ≤ s.width) {rows row i : Nat} (copied : row < rows)
    (column : i < t.width * channels) (bound : s.rowPlace row + i < image.size) :
    byteAt (s.putRows source t image rows) (s.rowPlace row + i)
      = byteAt source ((t.start + row * t.width) * channels + i) := by
  induction rows with
  | zero => omega
  | succ rows ih =>
    rw [putRows_succ, putRow_eq, byteAt_setAll, size_putRows]
    by_cases last : row = rows
    · subst last
      rw [if_pos ⟨Nat.le_add_right _ _, by omega, bound⟩, Nat.add_sub_cancel_left]
    · -- The last row begins behind all the others.
      have before := rowPlace_lt wide (show row < rows by omega) column
      rw [if_neg (by omega), ih (by omega)]

theorem takeRows_eq {rows : Nat} (inside : (t.start + rows * t.width) * channels ≤ source.size)
    (held : ∀ row < rows, ∀ i < t.width * channels,
      byteAt image (s.rowPlace row + i) = byteAt source ((t.start + row * t.width) * channels + i)) :
    (List.range rows).foldl (s.takeRow t image) out
      = out ++ source.extract (t.start * channels) ((t.start + rows * t.width) * channels) := by
  induction rows with
  | zero =>
    rw [Nat.zero_mul, Nat.add_zero, Array.extract_empty_of_stop_le_start (Nat.le_refl _), Array.append_empty]
    rfl
  | succ rows ih =>
    have next : (t.start + (rows + 1) * t.width) * channels
        = (t.start + rows * t.width) * channels + t.width * channels := by
      rw [Nat.succ_mul, ← Nat.add_assoc, Nat.add_mul]
    have start : t.start * channels ≤ (t.start + rows * t.width) * channels :=
      Nat.mul_le_mul_right _ (Nat.le_add_right _ _)
    rw [next] at inside ⊢
    rw [List.range_succ, List.foldl_append, ih (by omega) fun row before => held row (by omega)]
    show (List.range (t.width * channels)).foldl _ _ = _
    rw [pushAll_eq_extract inside (held rows (by omega)), Array.append_assoc,
      extract_append_of_le start (by omega)]

/-- A rectangle through the image gives its bytes, and leaves an image as large as it was. -/
theorem copyTile_eq (ready : s.Ready) (fits : Fits s.width s.height (source.size / channels) t) :
    ∃ image, image.size = s.image.size
      ∧ s.copyTile source out t = (out ++ source.extract (t.start * channels)
          ((t.start + t.width * t.height) * channels), { s with image := image }) := by
  refine ⟨s.putRows source t s.image t.height, size_putRows _, ?_⟩
  have inside : (t.start + t.height * t.width) * channels ≤ source.size := by
    rw [Nat.mul_comm t.height]
    exact Nat.le_trans (Nat.mul_le_mul_right _ fits.inside) (Nat.div_mul_le_self _ _)
  have taken := @takeRows_eq s source (s.putRows source t s.image t.height) out t t.height inside
    fun row copied i column => by
      -- Every row of the rectangle is a row of the image.
      have bound : s.rowPlace row + i < s.image.size := by
        refine Nat.lt_of_lt_of_le (rowPlace_lt fits.wide copied column) ?_
        rw [ready.room, rowPlace, Nat.mul_comm t.height]
        exact Nat.mul_le_mul_right _ (Nat.mul_le_mul_left _ fits.high)
      exact byteAt_putRows fits.wide copied column bound
  rw [Nat.mul_comm t.height] at taken
  exact Prod.ext taken rfl

/-! ## Rectangles one after the other -/

/-- Rectangles inside of an image that follow each other from one pixel to another. -/
inductive Covers (width height : Nat) : Nat → List Tile → Nat → Prop
  | nil (first : Nat) : Covers width height first [] first
  | cons {t : Tile} {rest : List Tile} {last : Nat} (wide : t.width ≤ width) (high : t.height ≤ height)
      (others : Covers width height (t.start + t.width * t.height) rest last) :
      Covers width height t.start (t :: rest) last

namespace Covers

variable {width height first middle last : Nat} {ts us : List Tile}

theorem append (front : Covers width height first ts middle) (back : Covers width height middle us last) :
    Covers width height first (ts ++ us) last := by
  induction front with
  | nil => exact back
  | cons wide high _ ih => exact .cons wide high (ih back)

theorem single (t : Tile) (wide : t.width ≤ width) (high : t.height ≤ height) :
    Covers width height t.start [t] (t.start + t.width * t.height) := .cons wide high (.nil _)

theorem le (covers : Covers width height first ts last) : first ≤ last := by
  induction covers with
  | nil => exact Nat.le_refl _
  | cons _ _ _ ih => omega

theorem fits (covers : Covers width height first ts last) : ∀ t ∈ ts, Fits width height last t := by
  induction covers with
  | nil => exact nofun
  | cons wide high others ih => exact List.forall_mem_cons.2 ⟨⟨wide, high, others.le⟩, ih⟩

end Covers

theorem covers_wholeTiles (width height whole : Nat) :
    Covers width height 0 ((List.range whole).map fun i => ⟨i * (width * height), width, height⟩)
      (whole * (width * height)) := by
  induction whole with
  | zero =>
    rw [Nat.zero_mul]
    exact .nil 0
  | succ whole ih =>
    rw [List.range_succ, List.map_append, Nat.succ_mul]
    exact ih.append (Covers.single ⟨_, width, height⟩ (Nat.le_refl _) (Nat.le_refl _))

theorem covers_parts {width height whole rows left : Nat} (row : rows < height) (short : left < width) :
    Covers width height 0 ((List.range whole).map (fun i => ⟨i * (width * height), width, height⟩)
        ++ (if 0 < rows then [⟨whole * (width * height), width, rows⟩] else [])
        ++ (if 0 < left then [⟨whole * (width * height) + rows * width, left, 1⟩] else []))
      (whole * (width * height) + rows * width + left) := by
  have below : Covers width height (whole * (width * height))
      (if 0 < rows then [⟨whole * (width * height), width, rows⟩] else [])
      (whole * (width * height) + rows * width) := by
    split
    · rw [Nat.mul_comm rows]
      exact Covers.single ⟨_, width, rows⟩ (Nat.le_refl _) (Nat.le_of_lt row)
    · next none =>
      rw [Nat.eq_zero_of_not_pos none, Nat.zero_mul]
      exact .nil _
  have behind : Covers width height (whole * (width * height) + rows * width)
      (if 0 < left then [⟨whole * (width * height) + rows * width, left, 1⟩] else [])
      (whole * (width * height) + rows * width + left) := by
    split
    · have last := Covers.single ⟨whole * (width * height) + rows * width, left, 1⟩ (Nat.le_of_lt short)
        (Nat.zero_lt_of_lt row)
      rwa [Nat.mul_one] at last
    · next none =>
      rw [Nat.eq_zero_of_not_pos none]
      exact .nil _
  exact ((covers_wholeTiles width height whole).append below).append behind

/-- The rectangles follow each other up to the last pixel. -/
theorem covers_tiles {width height : Nat} (wide : 0 < width) (high : 0 < height) (pixels : Nat) :
    Covers width height 0 (tiles width height pixels) pixels := by
  have inTile : pixels % (width * height) < width * height := Nat.mod_lt _ (Nat.mul_pos wide high)
  have covers := @covers_parts width height (pixels / (width * height)) _ _ (Nat.div_lt_of_lt_mul inTile)
    (Nat.mod_lt (pixels % (width * height)) wide)
  rwa [Nat.add_assoc, Nat.div_add_mod', Nat.div_add_mod'] at covers

/-- Eleven pixels through an image of three by two. -/
example : tiles 3 2 11 = [⟨0, 3, 2⟩, ⟨6, 3, 1⟩, ⟨9, 2, 1⟩] := by decide

/-- Rectangles that follow each other give what is between their ends. -/
theorem foldl_copyTile (ready : s.Ready) {first last : Nat} {ts : List Tile}
    (covers : Covers s.width s.height first ts last) (inside : last ≤ source.size / channels) :
    ∃ image, image.size = s.image.size
      ∧ ts.foldl (fun (out, s) t => s.copyTile source out t) (source.extract 0 (first * channels), s)
        = (source.extract 0 (last * channels), { s with image := image }) := by
  induction ts generalizing s first with
  | nil =>
    cases covers
    exact ⟨s.image, rfl, rfl⟩
  | cons t ts ih =>
    cases covers with
    | cons wide high others =>
      have within := others.le
      obtain ⟨image, size, copied⟩ := @copyTile_eq s source (source.extract 0 (t.start * channels)) t ready
        ⟨wide, high, Nat.le_trans within inside⟩
      rw [extract_append_of_le (Nat.zero_le _) (Nat.mul_le_mul_right _ (Nat.le_add_right _ _))] at copied
      obtain ⟨final, same, rest⟩ := @ih { s with image := image } ⟨ready.wide, ready.high, size.trans ready.room⟩
        _ others
      refine ⟨final, same.trans size, ?_⟩
      rw [List.foldl_cons]
      dsimp only
      rw [copied, rest]

/-! ## Whole reads -/

theorem pixels_wholePixels (bytes : Bytes) :
    (wholePixels bytes).size / channels * channels = (wholePixels bytes).size := by
  simp only [wholePixels, Array.size_append, Array.size_replicate, channels]
  omega

theorem take_wholePixels (bytes : Bytes) : (wholePixels bytes).take bytes.size = bytes := by
  simp [wholePixels]

/-- A read gives the bytes of the buffer, and leaves an image as large as it was. -/
theorem read_eq (ready : s.Ready) (bytes : Bytes) :
    ∃ image, image.size = s.image.size ∧ s.read bytes = (bytes, { s with image := image }) := by
  have covers := covers_tiles ready.wide ready.high ((wholePixels bytes).size / channels)
  obtain ⟨image, size, copied⟩ := foldl_copyTile ready covers (Nat.le_refl _)
  refine ⟨image, size, ?_⟩
  rw [Nat.zero_mul, Array.extract_zero, pixels_wholePixels, Array.extract_size] at copied
  unfold read
  dsimp only
  rw [copied]
  exact congrArg (·, _) (take_wholePixels bytes)

end Staging

/-! ## Several reads -/

def readEach {σ : Type} (read : σ → Bytes → Bytes × σ) : σ → List Bytes → List Bytes × σ
  | s, [] => ([], s)
  | s, bytes :: rest =>
    let (out, s) := read s bytes
    let (outs, s) := readEach read s rest
    (out :: outs, s)

/-- Reads that give what is asked for, and leave what they need, do so one after the other. -/
theorem readEach_eq {σ : Type} {read : σ → Bytes → Bytes × σ} {Good : σ → Prop}
    (each : ∀ s bytes, Good s → (read s bytes).1 = bytes ∧ Good (read s bytes).2) {s : σ} (good : Good s)
    (requests : List Bytes) : (readEach read s requests).1 = requests := by
  induction requests generalizing s with
  | nil => rfl
  | cons bytes rest ih =>
    obtain ⟨given, still⟩ := each s bytes good
    show (read s bytes).1 :: (readEach read (read s bytes).2 rest).1 = bytes :: rest
    rw [given, ih still]

namespace Staging

theorem Ready.read {s : Staging} (ready : s.Ready) (bytes : Bytes) :
    (s.read bytes).1 = bytes ∧ (s.read bytes).2.Ready := by
  obtain ⟨image, size, known⟩ := read_eq ready bytes
  rw [known]
  exact ⟨rfl, ready.wide, ready.high, size.trans ready.room⟩

theorem ready_blank {width height : Nat} (wide : 0 < width) (high : 0 < height) : (blank width height).Ready :=
  ⟨wide, high, Array.size_replicate⟩

end Staging

namespace Readback

/-- Ways of reading back whose image, if there is one yet, has room for all its pixels. -/
inductive Ready : Readback → Prop
  | mapped : Ready mapped
  | unused : Ready (staged none)
  | used {s : Staging} (ready : s.Ready) : Ready (staged (some s))

theorem Ready.read {r : Readback} (ready : r.Ready) (bytes : Bytes) :
    (r.read bytes).1 = bytes ∧ (r.read bytes).2.Ready := by
  cases ready with
  | mapped => exact ⟨rfl, .mapped⟩
  | unused =>
    have blank := Staging.ready_blank (show 0 < imageExtent by decide) (show 0 < imageExtent by decide)
    obtain ⟨given, still⟩ := blank.read bytes
    exact ⟨given, .used still⟩
  | used ready =>
    obtain ⟨given, still⟩ := ready.read bytes
    exact ⟨given, .used still⟩

/-- Through an image of any extents, and whatever it held before, each of several reads gives the bytes of its
    buffer, and so it does through the image that the staged way makes for itself, as through mapped memory. The
    rectangles that are copied lie inside of the image and of the buffer. -/
theorem readEach_exact {width height : Nat} (wide : 0 < width) (high : 0 < height) {image : Bytes}
    (room : image.size = width * height * channels) (requests : List Bytes) :
    (readEach Staging.read ⟨width, height, image⟩ requests).1 = requests
      ∧ (readEach Readback.read (staged none) requests).1 = requests
      ∧ (readEach Readback.read mapped requests).1 = requests
      ∧ ∀ bytes ∈ requests, ∀ t ∈ Staging.tiles width height ((Staging.wholePixels bytes).size / channels),
        Staging.Fits width height ((Staging.wholePixels bytes).size / channels) t := by
  have image : (⟨width, height, image⟩ : Staging).Ready := ⟨wide, high, room⟩
  have ways : ∀ {r : Readback}, r.Ready → (readEach Readback.read r requests).1 = requests :=
    fun ready => readEach_eq (fun _ bytes good => good.read bytes) ready requests
  exact ⟨readEach_eq (fun _ bytes good => good.read bytes) image requests, ways .unused, ways .mapped,
    fun _ _ => (Staging.covers_tiles wide high _).fits⟩

/-- An image of three by two pixels with something in it: an empty buffer, a part of a pixel, and more than a
    tile. -/
theorem readEach_exact_smallImage :
    (0 < 3 ∧ 0 < 2 ∧ (Array.replicate 24 7 : Bytes).size = 3 * 2 * channels)
      ∧ (readEach Staging.read ⟨3, 2, Array.replicate 24 7⟩
          [#[], #[1, 2, 3], (List.range 30).toArray.map UInt8.ofNat, #[4, 5, 6, 8, 9]]).1
        = [#[], #[1, 2, 3], (List.range 30).toArray.map UInt8.ofNat, #[4, 5, 6, 8, 9]] := by
  have room : (Array.replicate 24 7 : Bytes).size = 3 * 2 * channels := by decide
  exact ⟨⟨by decide, by decide, room⟩, (readEach_exact (by decide) (by decide) room _).1⟩

end Readback

end StridedArray
