import Mathlib.Algebra.Group.Nat.Defs
import Raster.Pixel.Format

/-!
# Words and bytes of pixels

All pixels of a format have the same count of channels, and the word of a channel fits into a fixed
count of bytes. So the bytes of a pixel tell where each channel ends, and the bytes of many pixels
tell where each pixel ends: nothing is lost by laying them out one after another.
-/

namespace Raster

/-! ### Layout -/

namespace PixelFormat

def channelCount : PixelFormat → Nat
  | gray8 => 1
  | gray16 => 1
  | grayFloat => 1
  | complexFloat => 2
  | rgba8 => 4
  | rgba16 => 4

/-- The count of bytes of each channel. -/
def channelBytes : PixelFormat → Nat
  | gray8 => 1
  | gray16 => 2
  | grayFloat => 4
  | complexFloat => 4
  | rgba8 => 1
  | rgba16 => 2

/-- The formats whose channels are levels, each with the bits of these levels. -/
inductive HasLevels : PixelFormat → Nat → Prop where
  | gray8 : HasLevels gray8 8
  | gray16 : HasLevels gray16 16
  | rgba8 : HasLevels rgba8 8
  | rgba16 : HasLevels rgba16 16

end PixelFormat

theorem Binary.bits_lt {f : BinaryFormat} (x : Binary f) : x.bits < 2 * f.signBit := by
  have bound := x.magnitude_lt
  rw [bits]
  split <;> omega

namespace Pixel

variable {f : PixelFormat}

theorem length_words (p : Pixel f) : p.words.length = f.channelCount := by
  cases f <;> rfl

/-! ### Channels -/

/-- The word of a channel. -/
def channel (p : Pixel f) (c : Fin f.channelCount) : Nat :=
  p.words.get (c.cast p.length_words.symm)

/-- Pixels are the same if they agree in every channel. -/
theorem ext_channel {p q : Pixel f} (same : ∀ c, p.channel c = q.channel c) : p = q := by
  apply words_injective
  apply List.ext_get (p.length_words.trans q.length_words.symm)
  intro c inside _
  exact same ⟨c, p.length_words ▸ inside⟩

/-- An operation on pixels of levels acts on each channel for itself. -/
theorem words_zipWith {bits : Nat} (levels : f.HasLevels bits)
    (level : {bits : Nat} → Level bits → Level bits → Level bits)
    (number : Single → Single → Single) (complex : Complex → Complex → Complex)
    (onWords : Nat → Nat → Nat)
    (agrees : ∀ x y : Level bits, (level x y).toNat = onWords x.toNat y.toNat) (p q : Pixel f) :
    (zipWith level number complex p q).words = List.zipWith onWords p.words q.words := by
  cases levels with
  | gray8 | gray16 => exact congrArg (fun word => [word]) (agrees p q)
  | rgba8 | rgba16 =>
    simp only [words, zipWith, Rgba.channels, Rgba.zipWith, List.map_cons, List.map_nil,
      List.zipWith_cons_cons, List.zipWith_nil_left, agrees]

theorem channel_zipWith {bits : Nat} (levels : f.HasLevels bits)
    (level : {bits : Nat} → Level bits → Level bits → Level bits)
    (number : Single → Single → Single) (complex : Complex → Complex → Complex)
    (onWords : Nat → Nat → Nat)
    (agrees : ∀ x y : Level bits, (level x y).toNat = onWords x.toNat y.toNat) (p q : Pixel f)
    (c : Fin f.channelCount) :
    (zipWith level number complex p q).channel c = onWords (p.channel c) (q.channel c) := by
  simp [channel, words_zipWith levels level number complex onWords agrees]

theorem channel_add {bits : Nat} (levels : f.HasLevels bits) (p q : Pixel f)
    (c : Fin f.channelCount) :
    (p + q).channel c = min (p.channel c + q.channel c) (Level.limit bits) :=
  channel_zipWith levels (· + ·) _ _ (fun m n => min (m + n) (Level.limit bits))
    Level.toNat_add p q c

theorem channel_mul {bits : Nat} (levels : f.HasLevels bits) (p q : Pixel f)
    (c : Fin f.channelCount) :
    (p * q).channel c = min (p.channel c * q.channel c) (Level.limit bits) :=
  channel_zipWith levels (· * ·) _ _ (fun m n => min (m * n) (Level.limit bits))
    Level.toNat_mul p q c

theorem words_le {bits : Nat} (levels : f.HasLevels bits) (p : Pixel f) (w : Nat)
    (member : w ∈ p.words) : w ≤ Level.limit bits := by
  cases levels with
  | gray8 | gray16 =>
    rw [List.mem_singleton.mp member]
    exact Level.toNat_le p
  | rgba8 | rgba16 =>
    obtain ⟨x, -, rfl⟩ := List.mem_map.mp member
    exact x.toNat_le

theorem channel_le {bits : Nat} (levels : f.HasLevels bits) (p : Pixel f)
    (c : Fin f.channelCount) : p.channel c ≤ Level.limit bits :=
  p.words_le levels _ (List.get_mem ..)

end Pixel

/-! ### Bytes -/

theorem length_flatMap_of_length {α β : Type} (block : α → List β) (n : Nat)
    (length : ∀ a, (block a).length = n) (xs : List α) :
    (xs.flatMap block).length = xs.length * n := by
  induction xs with
  | nil => simp
  | cons x xs ih =>
    rw [List.flatMap_cons, List.length_append, length, ih, List.length_cons, Nat.succ_mul,
      Nat.add_comm]

/-- A concatenation of blocks of one length determines the blocks, if it is known how many. -/
theorem flatMap_injective_of_length {α β : Type} (block : α → List β) (n : Nat)
    (length : ∀ a, (block a).length = n) (xs ys : List α) (sameLength : xs.length = ys.length)
    (injective : ∀ a ∈ xs, ∀ b ∈ ys, block a = block b → a = b)
    (same : xs.flatMap block = ys.flatMap block) : xs = ys := by
  induction xs generalizing ys with
  | nil => exact (List.eq_nil_of_length_eq_zero sameLength.symm).symm
  | cons x xs ih =>
    cases ys with
    | nil => cases sameLength
    | cons y ys =>
      simp only [List.flatMap_cons] at same
      obtain ⟨first, rest⟩ := List.append_inj same ((length x).trans (length y).symm)
      have tails : xs = ys := ih ys (Nat.succ.inj sameLength)
        (fun a inXs b inYs => injective a (.tail _ inXs) b (.tail _ inYs)) rest
      rw [injective x (.head _) y (.head _) first, tails]

/-- The lowest bytes of a word, so many of them, the lowest first. -/
def littleEndian : Nat → Nat → List UInt8
  | 0, _ => []
  | n + 1, word => UInt8.ofNat word :: littleEndian n (word / 256)

theorem length_littleEndian (n word : Nat) : (littleEndian n word).length = n := by
  induction n generalizing word with
  | zero => rfl
  | succ n ih => rw [littleEndian, List.length_cons, ih]

/-- A word that fits into so many bytes is told by them. -/
theorem littleEndian_injective (n v w : Nat) (fitsV : v < 256 ^ n) (fitsW : w < 256 ^ n)
    (same : littleEndian n v = littleEndian n w) : v = w := by
  induction n generalizing v w with
  | zero => omega
  | succ n ih =>
    rw [Nat.pow_succ] at fitsV fitsW
    obtain ⟨low, high⟩ := List.cons.inj same
    -- The first byte is the remainder, and the other bytes are those of the quotient.
    have lowest : v % 256 = w % 256 := by simpa using congrArg UInt8.toNat low
    have others := ih (v / 256) (w / 256) (Nat.div_lt_of_lt_mul (by omega))
      (Nat.div_lt_of_lt_mul (by omega)) high
    omega

namespace Pixel

variable {f : PixelFormat}

/-- The word of a channel fits into the bytes of the channel. -/
theorem words_lt (p : Pixel f) (w : Nat) (member : w ∈ p.words) : w < 256 ^ f.channelBytes := by
  cases f with
  | gray8 => exact Nat.lt_of_le_of_lt (p.words_le .gray8 w member) (by decide)
  | gray16 => exact Nat.lt_of_le_of_lt (p.words_le .gray16 w member) (by decide)
  | grayFloat =>
    -- The sign bit is the highest of the four bytes.
    rw [List.mem_singleton.mp member]
    exact Binary.bits_lt p
  | complexFloat =>
    rcases List.mem_cons.mp member with rfl | other
    · exact Binary.bits_lt _
    · rw [List.mem_singleton.mp other]
      exact Binary.bits_lt _
  | rgba8 => exact Nat.lt_of_le_of_lt (p.words_le .rgba8 w member) (by decide)
  | rgba16 => exact Nat.lt_of_le_of_lt (p.words_le .rgba16 w member) (by decide)

/-- The bytes of a pixel as they lie in memory: those of its channels, in order. -/
def bytes (p : Pixel f) : List UInt8 :=
  p.words.flatMap (littleEndian f.channelBytes)

theorem length_bytes (p : Pixel f) : p.bytes.length = f.channelCount * f.channelBytes := by
  rw [bytes, length_flatMap_of_length _ _ (length_littleEndian _), length_words]

/-- Pixels with the same bytes are the same pixel. -/
theorem bytes_injective {p q : Pixel f} (same : p.bytes = q.bytes) : p = q := by
  apply words_injective
  refine flatMap_injective_of_length _ _ (length_littleEndian _) _ _
    (p.length_words.trans q.length_words.symm) ?_ same
  intro v inP w inQ sameBytes
  exact littleEndian_injective _ v w (p.words_lt v inP) (q.words_lt w inQ) sameBytes

/-- The bytes of two pixels differ exactly if some channel does. -/
theorem bytes_ne_iff (p q : Pixel f) : p.bytes ≠ q.bytes ↔ ∃ c, p.channel c ≠ q.channel c := by
  constructor
  · intro different
    apply Classical.byContradiction
    intro same
    have channels (c) : p.channel c = q.channel c :=
      Classical.byContradiction fun other => same ⟨c, other⟩
    exact different (congrArg bytes (ext_channel channels))
  · rintro ⟨c, other⟩ same
    exact other (congrArg (channel · c) (bytes_injective same))

end Pixel

end Raster
