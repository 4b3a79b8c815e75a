import Mathlib.Data.List.Count
import Mathlib.Logic.Function.Basic
import Mathlib.Tactic.Ring

/-! webcam_manager.h: frames from YUYV to RGB. -/
namespace OrazioLogger.Webcam

/- Arithmetic in `size_t`. -/
def sizeT (n : Nat) : Nat := n % 2 ^ 64

def minmax (min v max : Int) : Int := if v < min then min else if max < v then max else v

/- The bytes from `rgb` on; `reads` and `writes` are history, the offsets into the two blocks. -/
structure Conversion where
  allocated : Nat
  rgb : Nat → UInt8
  reads : List Nat
  writes : List Nat

def Conversion.read (c : Conversion) (offset : Nat) : Conversion := { c with reads := c.reads ++ [offset] }

def Conversion.write (c : Conversion) (offset : Nat) (v : Int) : Conversion :=
  { c with rgb := Function.update c.rgb offset (UInt8.ofNat (v % 256).toNat), writes := c.writes ++ [offset] }

/- The two pixels from `index` on. -/
def pixelPair (yuyv : Nat → UInt8) (index : Nat) (c : Conversion) : Conversion :=
  let y0 : Int := ((yuyv (sizeT (index * 2 + 0))).toNat : Int) <<< (8 : Nat)
  let u : Int := (yuyv (sizeT (index * 2 + 1))).toNat - 128
  let y1 : Int := ((yuyv (sizeT (index * 2 + 2))).toNat : Int) <<< (8 : Nat)
  let v : Int := (yuyv (sizeT (index * 2 + 3))).toNat - 128
  let c := c.read (sizeT (index * 2 + 0))
  let c := c.read (sizeT (index * 2 + 1))
  let c := c.read (sizeT (index * 2 + 2))
  let c := c.read (sizeT (index * 2 + 3))
  let c := c.write (sizeT (index * 3 + 0)) (minmax 0 ((y0 + 359 * v) >>> (8 : Nat)) 255)
  let c := c.write (sizeT (index * 3 + 1)) (minmax 0 ((y0 + 88 * v - 183 * u) >>> (8 : Nat)) 255)
  let c := c.write (sizeT (index * 3 + 2)) (minmax 0 ((y0 + 454 * u) >>> (8 : Nat)) 255)
  let c := c.write (sizeT (index * 3 + 3)) (minmax 0 ((y1 + 359 * v) >>> (8 : Nat)) 255)
  let c := c.write (sizeT (index * 3 + 4)) (minmax 0 ((y1 + 88 * v - 183 * u) >>> (8 : Nat)) 255)
  c.write (sizeT (index * 3 + 5)) (minmax 0 ((y1 + 454 * u) >>> (8 : Nat)) 255)

/- `for (j = 0; j < width; j += 2)` of row `i`. -/
def row (yuyv : Nat → UInt8) (width i : Nat) (c : Conversion) : Conversion :=
  (List.range' 0 ((width + 1) / 2) 2).foldl (fun c j => pixelPair yuyv (sizeT (i * width + j)) c) c

/- The block `calloc` returns is zeroed. -/
def yuyv2rgb (yuyv : Nat → UInt8) (width height : UInt32) : Conversion :=
  (List.range height.toNat).foldl (fun c i => row yuyv width.toNat i c) ⟨(width * height * 3).toNat, fun _ => 0, [], []⟩

/-! One byte of the result, from the pixel and the pair it is in. -/

def colour (y u v : Int) : Nat → Int
  | 0 => max 0 (min 255 ((256 * y + 359 * v) / 256))
  | 1 => max 0 (min 255 ((256 * y + 88 * v - 183 * u) / 256))
  | _ => max 0 (min 255 ((256 * y + 454 * u) / 256))

def luma (yuyv : Nat → UInt8) (pixel : Nat) : Int := (yuyv (2 * pixel)).toNat

def chromaU (yuyv : Nat → UInt8) (pair : Nat) : Int := (yuyv (4 * pair + 1)).toNat - 128

def chromaV (yuyv : Nat → UInt8) (pair : Nat) : Int := (yuyv (4 * pair + 3)).toNat - 128

def byteAt (yuyv : Nat → UInt8) (offset : Nat) : UInt8 :=
  let pixel := offset / 3
  UInt8.ofNat (colour (luma yuyv pixel) (chromaU yuyv (pixel / 2)) (chromaV yuyv (pixel / 2)) (offset % 3)).toNat

theorem minmaxLimits (v : Int) : minmax 0 v 255 = max 0 (min 255 v) := by
  unfold minmax
  split
  · omega
  split <;> omega

theorem minmaxByte (v : Int) : UInt8.ofNat (minmax 0 v 255 % 256).toNat = UInt8.ofNat (max 0 (min 255 v)).toNat := by
  rw [minmaxLimits, Int.emod_eq_of_lt (by omega) (by omega)]

/- What is stored for a sum with a luma byte on its left. -/
theorem shiftedByte (y e : Int) : UInt8.ofNat (minmax 0 ((y <<< (8 : Nat) + e) >>> (8 : Nat)) 255 % 256).toNat =
    UInt8.ofNat (max 0 (min 255 ((256 * y + e) / 256))).toNat := by
  have shifts : (y <<< (8 : Nat) + e) >>> (8 : Nat) = (256 * y + e) / 256 := by
    rw [Int.shiftRight_eq_div_pow, Int.shiftLeft_eq, mul_comm]
    rfl
  rw [minmaxByte, shifts]

theorem redByte (y u v : Int) : UInt8.ofNat (minmax 0 ((y <<< (8 : Nat) + 359 * v) >>> (8 : Nat)) 255 % 256).toNat =
    UInt8.ofNat (colour y u v 0).toNat := shiftedByte y _

theorem greenByte (y u v : Int) : UInt8.ofNat (minmax 0 ((y <<< (8 : Nat) + 88 * v - 183 * u) >>> (8 : Nat)) 255 % 256).toNat =
    UInt8.ofNat (colour y u v 1).toNat := by
  rw [add_sub_assoc, shiftedByte, colour, add_sub_assoc]

theorem blueByte (y u v : Int) : UInt8.ofNat (minmax 0 ((y <<< (8 : Nat) + 454 * u) >>> (8 : Nat)) 255 % 256).toNat =
    UInt8.ofNat (colour y u v 2).toNat := shiftedByte y _

/- The bytes of the first `m` offsets are stored, each by one write. -/
structure Filled (yuyv : Nat → UInt8) (m : Nat) (c : Conversion) : Prop where
  writes : c.writes = List.range m
  bytes : ∀ x < m, c.rgb x = byteAt yuyv x

theorem Filled.write {yuyv : Nat → UInt8} {m : Nat} {c : Conversion} (filled : Filled yuyv m c) {offset : Nat} {v : Int}
    (next : offset = m) (value : UInt8.ofNat (minmax 0 v 255 % 256).toNat = byteAt yuyv m) :
    Filled yuyv (m + 1) (c.write offset (minmax 0 v 255)) := by
  subst offset
  refine ⟨?_, fun x below => ?_⟩
  · change c.writes ++ [m] = List.range (m + 1)
    rw [filled.writes, List.range_succ]
  · change Function.update c.rgb m _ x = byteAt yuyv x
    rcases Nat.lt_succ_iff_lt_or_eq.mp below with before | rfl
    · rw [Function.update_of_ne before.ne, filled.bytes x before]
    · rw [Function.update_self, value]

/- The bytes of the pair `n`, of its first and of its second pixel. -/
theorem byteOfPair (yuyv : Nat → UInt8) (n pixel channel : Nat) (pair : pixel = 2 * n ∨ pixel = 2 * n + 1)
    (channels : channel < 3) : byteAt yuyv (3 * pixel + channel) =
      UInt8.ofNat (colour (luma yuyv pixel) (chromaU yuyv n) (chromaV yuyv n) channel).toNat := by
  have division : (3 * pixel + channel) / 3 = pixel := by omega
  have remainder : (3 * pixel + channel) % 3 = channel := by omega
  have half : pixel / 2 = n := by omega
  unfold byteAt
  rw [division, remainder]
  dsimp only
  rw [half]

/- The first `n` pairs are done. -/
structure Done (yuyv : Nat → UInt8) (n : Nat) (c : Conversion) : Prop where
  reads : c.reads = List.range (4 * n)
  filled : Filled yuyv (6 * n) c

theorem Done.pair {yuyv : Nat → UInt8} {n : Nat} {c : Conversion} (done : Done yuyv n c) (small : 6 * n + 6 ≤ 2 ^ 64) :
    Done yuyv (n + 1) (pixelPair yuyv (2 * n) c) := by
  have read : ∀ k < 4, sizeT (2 * n * 2 + k) = 4 * n + k := fun k below => by unfold sizeT; omega
  have write : ∀ k < 6, sizeT (2 * n * 3 + k) = 6 * n + k := fun k below => by unfold sizeT; omega
  have first (channel : Nat) (below : channel < 3) : byteAt yuyv (6 * n + channel) =
      UInt8.ofNat (colour (yuyv (4 * n + 0)).toNat (chromaU yuyv n) (chromaV yuyv n) channel).toNat := by
    have own := byteOfPair yuyv n (2 * n) channel (.inl rfl) below
    rwa [luma, show 3 * (2 * n) = 6 * n by omega, show 2 * (2 * n) = 4 * n + 0 by omega] at own
  have second (channel : Nat) (below : channel < 3) : byteAt yuyv (6 * n + 3 + channel) =
      UInt8.ofNat (colour (yuyv (4 * n + 2)).toNat (chromaU yuyv n) (chromaV yuyv n) channel).toNat := by
    have own := byteOfPair yuyv n (2 * n + 1) channel (.inr rfl) below
    rwa [luma, show 3 * (2 * n + 1) = 6 * n + 3 by omega, show 2 * (2 * n + 1) = 4 * n + 2 by omega] at own
  unfold pixelPair
  rw [read 0 (by decide), read 1 (by decide), read 2 (by decide), read 3 (by decide), write 0 (by decide), write 1 (by decide),
    write 2 (by decide), write 3 (by decide), write 4 (by decide), write 5 (by decide)]
  refine ⟨?_, ?_⟩
  · change c.reads ++ [4 * n + 0] ++ [4 * n + 1] ++ [4 * n + 2] ++ [4 * n + 3] = List.range (4 * n + 1 + 1 + 1 + 1)
    rw [done.reads, List.range_succ, List.range_succ, List.range_succ, List.range_succ]
    rfl
  · have read : Filled yuyv (6 * n) ((((c.read (4 * n + 0)).read (4 * n + 1)).read (4 * n + 2)).read (4 * n + 3)) :=
      ⟨done.filled.writes, done.filled.bytes⟩
    have red := read.write rfl ((redByte _ _ _).trans (first 0 (by decide)).symm)
    have green := red.write rfl ((greenByte _ _ _).trans (first 1 (by decide)).symm)
    have blue := green.write rfl ((blueByte _ _ _).trans (first 2 (by decide)).symm)
    have red := blue.write rfl ((redByte _ _ _).trans (second 0 (by decide)).symm)
    have green := red.write rfl ((greenByte _ _ _).trans (second 1 (by decide)).symm)
    exact green.write rfl ((blueByte _ _ _).trans (second 2 (by decide)).symm)

theorem Done.row {yuyv : Nat → UInt8} {half i : Nat} {c : Conversion} (done : Done yuyv (i * half) c)
    (small : 6 * ((i + 1) * half) ≤ 2 ^ 64) : Done yuyv ((i + 1) * half) (row yuyv (2 * half) i c) := by
  have pairs : ∀ k ≤ half, Done yuyv (i * half + k)
      ((List.range' 0 k 2).foldl (fun c j => pixelPair yuyv (sizeT (i * (2 * half) + j)) c) c) := by
    intro k
    induction k with
    | zero => exact fun _ => done
    | succ k ih =>
      intro below
      have ahead : i * half + k + 1 ≤ (i + 1) * half := by
        rw [Nat.succ_mul]
        omega
      have pixel : i * (2 * half) + (0 + 2 * k) = 2 * (i * half + k) := by ring
      have index : sizeT (i * (2 * half) + (0 + 2 * k)) = 2 * (i * half + k) := by
        rw [pixel]
        exact Nat.mod_eq_of_lt (by omega)
      rw [List.range'_concat, List.foldl_append, List.foldl_cons, List.foldl_nil, index]
      exact (ih (by omega)).pair (by omega)
  have whole : (2 * half + 1) / 2 = half := by omega
  unfold Webcam.row
  rw [whole, Nat.succ_mul]
  exact pairs half le_rfl

theorem yuyv2rgbDone (yuyv : Nat → UInt8) (width height : UInt32) {half : Nat} (even : width.toNat = 2 * half)
    (small : 6 * (height.toNat * half) ≤ 2 ^ 64) : Done yuyv (height.toNat * half) (yuyv2rgb yuyv width height) := by
  have rows : ∀ n ≤ height.toNat, Done yuyv (n * half) ((List.range n).foldl (fun c i => row yuyv width.toNat i c)
      ⟨(width * height * 3).toNat, fun _ => 0, [], []⟩) := by
    intro n
    induction n with
    | zero =>
      intro _
      rw [Nat.zero_mul]
      exact ⟨rfl, rfl, fun x below => absurd below (Nat.not_lt_zero x)⟩
    | succ n ih =>
      intro below
      have within : (n + 1) * half ≤ height.toNat * half := Nat.mul_le_mul_right half below
      rw [List.range_succ, List.foldl_append, List.foldl_cons, List.foldl_nil, even]
      rw [even] at ih
      exact (ih (by omega)).row (by omega)
  exact rows height.toNat le_rfl

theorem foldAllocated (step : Conversion → Nat → Conversion) (keeps : ∀ c k, (step c k).allocated = c.allocated)
    (indices : List Nat) (c : Conversion) : (indices.foldl step c).allocated = c.allocated := by
  induction indices generalizing c with
  | nil => rfl
  | cons k rest ih => exact (ih _).trans (keeps c k)

theorem yuyv2rgbAllocated (yuyv : Nat → UInt8) (width height : UInt32) :
    (yuyv2rgb yuyv width height).allocated = (width * height * 3).toNat := by
  have pairs : ∀ i c, (row yuyv width.toNat i c).allocated = c.allocated := fun i c =>
    foldAllocated (fun c j => pixelPair yuyv (sizeT (i * width.toNat + j)) c) (fun _ _ => rfl) _ c
  exact foldAllocated (fun c i => row yuyv width.toNat i c) (fun c i => pairs i c) _ _

theorem colourByte (y u v : Int) (channel : Nat) : ((UInt8.ofNat (colour y u v channel).toNat).toNat : Int) = colour y u v channel := by
  have range : 0 ≤ colour y u v channel ∧ colour y u v channel ≤ 255 := by
    unfold colour
    split <;> omega
  rw [UInt8.toNat_ofNat', Nat.mod_eq_of_lt (by omega)]
  omega

/-! What becomes of one pixel: its own luma byte, and the chroma bytes of the pair that holds it. -/

def pixelY (yuyv : Nat → UInt8) (width i j : Nat) : Int := (yuyv (2 * (i * width + j))).toNat

def pixelU (yuyv : Nat → UInt8) (width i j : Nat) : Int := (yuyv (2 * (i * width + (j - j % 2)) + 1)).toNat - 128

def pixelV (yuyv : Nat → UInt8) (width i j : Nat) : Int := (yuyv (2 * (i * width + (j - j % 2)) + 3)).toNat - 128

structure PixelConverted (y u v : Int) (rgb : Nat → UInt8) (offset : Nat) : Prop where
  red : ((rgb offset).toNat : Int) = max 0 (min 255 ((256 * y + 359 * v) / 256))
  green : ((rgb (offset + 1)).toNat : Int) = max 0 (min 255 ((256 * y + 88 * v - 183 * u) / 256))
  blue : ((rgb (offset + 2)).toNat : Int) = max 0 (min 255 ((256 * y + 454 * u) / 256))

/- Frames of even width are converted byte by byte: every byte of the result is stored once, from bytes of the frame. -/
theorem yuyv2rgbConverts (yuyv : Nat → UInt8) (width height : UInt32) (even : 2 ∣ width.toNat)
    (small : 3 * width.toNat * height.toNat < 2 ^ 32) :
    (yuyv2rgb yuyv width height).allocated = 3 * width.toNat * height.toNat ∧
    (∀ offset ∈ (yuyv2rgb yuyv width height).reads, offset < 2 * width.toNat * height.toNat) ∧
    (∀ offset, (yuyv2rgb yuyv width height).writes.count offset = if offset < 3 * width.toNat * height.toNat then 1 else 0) ∧
    ∀ i < height.toNat, ∀ j < width.toNat,
      PixelConverted (pixelY yuyv width.toNat i j) (pixelU yuyv width.toNat i j) (pixelV yuyv width.toNat i j)
        (yuyv2rgb yuyv width height).rgb (3 * (i * width.toNat + j)) := by
  obtain ⟨half, even⟩ := even
  have area : 3 * width.toNat * height.toNat = 6 * (height.toNat * half) := by
    rw [even]
    ring
  have frame : 2 * width.toNat * height.toNat = 4 * (height.toNat * half) := by
    rw [even]
    ring
  have done : Done yuyv (height.toNat * half) (yuyv2rgb yuyv width height) := yuyv2rgbDone yuyv width height even (by omega)
  refine ⟨?_, fun offset read => ?_, fun offset => ?_, fun i row j column => ?_⟩
  · rw [yuyv2rgbAllocated, UInt32.toNat_mul, UInt32.toNat_mul, Nat.mod_mul_mod]
    have whole : width.toNat * height.toNat * UInt32.toNat 3 = 3 * width.toNat * height.toNat := by
      rw [mul_comm, ← mul_assoc]
      rfl
    rw [whole]
    exact Nat.mod_eq_of_lt small
  · rw [done.reads] at read
    rw [frame]
    exact List.mem_range.mp read
  · rw [done.filled.writes, area, List.nodup_range.count]
    simp only [List.mem_range]
  · have before : i * width.toNat = 2 * (i * half) := by
      rw [even]
      ring
    have last : (i + 1) * half ≤ height.toNat * half := Nat.mul_le_mul_right half row
    rw [Nat.succ_mul] at last
    have first : 2 * (i * width.toNat + (j - j % 2)) = 4 * ((i * width.toNat + j) / 2) := by omega
    have stored (channel : Nat) (below : channel < 3) :
        (((yuyv2rgb yuyv width height).rgb (3 * (i * width.toNat + j) + channel)).toNat : Int) =
          colour (pixelY yuyv width.toNat i j) (pixelU yuyv width.toNat i j) (pixelV yuyv width.toNat i j) channel := by
      have own := byteOfPair yuyv ((i * width.toNat + j) / 2) (i * width.toNat + j) channel (by omega) below
      rw [done.filled.bytes (3 * (i * width.toNat + j) + channel) (by omega), own]
      simp only [pixelY, pixelU, pixelV, first]
      exact colourByte _ _ _ _
    exact ⟨stored 0 (by decide), stored 1 (by decide), stored 2 (by decide)⟩

def stripes (k : Nat) : UInt8 := UInt8.ofNat (100 + 10 * (k % 7))

/- A frame of the size the logger takes, and a pixel in its second row. -/
theorem loggerFrame : (yuyv2rgb stripes 352 288).allocated = 304128 ∧
    ((yuyv2rgb stripes 352 288).rgb 1059).toNat = 120 ∧ ((yuyv2rgb stripes 352 288).rgb 1060).toNat = 134 ∧
    ((yuyv2rgb stripes 352 288).rgb 1061).toNat = 199 := by
  obtain ⟨allocated, -, -, pixels⟩ := yuyv2rgbConverts stripes 352 288 (by decide) (by decide)
  have y : pixelY stripes (UInt32.toNat 352) 1 1 = 160 := by decide
  have u : pixelU stripes (UInt32.toNat 352) 1 1 = 22 := by decide
  have v : pixelV stripes (UInt32.toNat 352) 1 1 = -28 := by decide
  have pixel := pixels 1 (by decide) 1 (by decide)
  rw [y, u, v] at pixel
  exact ⟨allocated, Int.ofNat_inj.mp pixel.red, Int.ofNat_inj.mp pixel.green, Int.ofNat_inj.mp pixel.blue⟩

end OrazioLogger.Webcam
