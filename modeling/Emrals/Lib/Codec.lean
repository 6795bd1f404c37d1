import Mathlib

/-!
# Byte streams

A deserializer reads values off the front of a byte stream, and fails when the stream runs out or
a check of the format fails (the exception the stream throws). `Reader` is that: the bytes left,
in `Option`. A format is a serializer `enc : α → List UInt8` and a reader, and its round trip is
that the reader reads `enc a` back off the front of any stream and leaves the rest
(`RoundTrip`).

This module gives the readers that formats are built from, each with its round trip: one byte, a
fixed number of bytes, little- and big-endian numbers of a fixed width, `n` items of another
format, and `n` steps of a loop that folds what it reads into an accumulator. The round trip of a
format is then a chain of these, joined by `run_bind_of_run`.
-/

namespace Codec

/-- A reader of a byte stream: the bytes it leaves, or a failure. -/
abbrev Reader (α : Type) := StateT (List UInt8) Option α

/-- Read one byte. -/
def readByte : Reader UInt8 := fun
  | [] => none
  | b :: s => some (b, s)

/-- Read `n` bytes. -/
def readBytes : Nat → Reader (List UInt8)
  | 0 => pure []
  | n + 1 => do
    let b ← readByte
    let bs ← readBytes n
    pure (b :: bs)

/-- Read `n` items with `r`. -/
def readN {α : Type} (r : Reader α) : Nat → Reader (List α)
  | 0 => pure []
  | n + 1 => do
    let a ← r
    let as ← readN r n
    pure (a :: as)

/-- Run `n` steps of a loop whose step reads and updates an accumulator. -/
def readLoop {β : Type} (step : β → Reader β) : Nat → β → Reader β
  | 0, b => pure b
  | n + 1, b => do
    let b ← step b
    readLoop step n b

/-- `r` reads back what `enc` writes, for the values that satisfy `P`. -/
def RoundTrip {α : Type} (enc : α → List UInt8) (r : Reader α) (P : α → Prop) : Prop :=
  ∀ a, P a → ∀ rest, r.run (enc a ++ rest) = some (a, rest)

section
variable {α β : Type}

@[simp] theorem run_pure (a : α) (s : List UInt8) : (pure a : Reader α).run s = some (a, s) :=
  rfl

@[simp] theorem run_failure (s : List UInt8) : (failure : Reader α).run s = none := rfl

/-- The bind rule of readers: when the first reader succeeds, the rest reads from where it
stopped. -/
theorem run_bind_of_run {r : Reader α} {f : α → Reader β} {s t : List UInt8} {a : α}
    (h : r.run s = some (a, t)) : (r >>= f).run s = (f a).run t := by
  rw [StateT.run_bind, h]
  rfl

/-- A reader whose value is mapped after it succeeds. -/
theorem run_bind_pure_of_run {r : Reader α} {g : α → β} {s t : List UInt8} {a : α}
    (h : r.run s = some (a, t)) : (r >>= fun v => pure (g v)).run s = some (g a, t) := by
  rw [run_bind_of_run h]
  rfl

theorem run_bind_of_none {r : Reader α} {f : α → Reader β} {s : List UInt8}
    (h : r.run s = none) : (r >>= f).run s = none := by
  rw [StateT.run_bind, h]
  rfl

theorem readByte_run (b : UInt8) (rest : List UInt8) : readByte.run (b :: rest) = some (b, rest) :=
  rfl

theorem readBytes_run : ∀ (bs rest : List UInt8),
    (readBytes bs.length).run (bs ++ rest) = some (bs, rest)
  | [], _ => rfl
  | b :: bs, rest => by
    rw [List.length_cons, readBytes, List.cons_append, run_bind_of_run (readByte_run b _),
      run_bind_of_run (readBytes_run bs rest)]
    rfl

/-! The inversions: what a reader that succeeded consumed. A format is canonical when every
string its reader accepts is the encoding of the value read, and these lemmas give back the
bytes consumed so that a proof can re-encode them. -/

/-- A bind that succeeded ran its first reader to success, and the rest from where it stopped. -/
theorem run_bind_eq_some {r : Reader α} {f : α → Reader β} {s t : List UInt8} {b : β}
    (h : (r >>= f).run s = some (b, t)) :
    ∃ a u, r.run s = some (a, u) ∧ (f a).run u = some (b, t) := by
  rw [StateT.run_bind] at h
  cases hr : r.run s with
  | none => rw [hr] at h; cases h
  | some p =>
    rw [hr] at h
    exact ⟨p.1, p.2, rfl, h⟩

theorem run_pure_eq_some {a b : α} {s t : List UInt8} (h : (pure a : Reader α).run s = some (b, t)) :
    a = b ∧ s = t := by
  cases h
  exact ⟨rfl, rfl⟩

theorem readByte_eq_some {s t : List UInt8} {b : UInt8} (h : readByte.run s = some (b, t)) :
    s = b :: t := by
  cases s with
  | nil => cases h
  | cons c s => cases h; rfl

theorem readBytes_eq_some : ∀ {n : Nat} {s t bs : List UInt8},
    (readBytes n).run s = some (bs, t) → s = bs ++ t ∧ bs.length = n
  | 0, _, _, _, h => by
    obtain ⟨rfl, rfl⟩ := run_pure_eq_some h
    exact ⟨rfl, rfl⟩
  | n + 1, s, t, bs, h => by
    rw [readBytes] at h
    obtain ⟨b, u, hb, h⟩ := run_bind_eq_some h
    obtain ⟨bs', v, hbs, h⟩ := run_bind_eq_some h
    obtain ⟨rfl, rfl⟩ := run_pure_eq_some h
    obtain ⟨rfl, hlen⟩ := readBytes_eq_some hbs
    rw [readByte_eq_some hb]
    exact ⟨rfl, by rw [List.length_cons, hlen]⟩

/-- Items of a format, one after another, read back item by item. -/
theorem RoundTrip.readN {enc : α → List UInt8} {r : Reader α} {P : α → Prop}
    (h : RoundTrip enc r P) : ∀ (as : List α), (∀ a ∈ as, P a) → ∀ rest,
      (Codec.readN r as.length).run (as.flatMap enc ++ rest) = some (as, rest)
  | [], _, _ => rfl
  | a :: as, hP, rest => by
    have hrest : ∀ b ∈ as, P b := fun b hb => hP b (List.mem_cons_of_mem a hb)
    rw [List.length_cons, Codec.readN, List.flatMap_cons, List.append_assoc,
      run_bind_of_run (h a (hP a List.mem_cons_self) _),
      run_bind_of_run (RoundTrip.readN h as hrest rest)]
    rfl

/-- A loop whose step reads one item and folds it into the accumulator, possibly failing: `n`
steps over `n` written items are the fold of the items. -/
theorem readLoop_run {step : β → Reader β} {enc : α → List UInt8} {g : β → α → Option β}
    {P : α → Prop}
    (hstep : ∀ b a rest, P a → (step b).run (enc a ++ rest) = (g b a).map (·, rest)) :
    ∀ (as : List α) (b : β) (rest : List UInt8), (∀ a ∈ as, P a) →
      (readLoop step as.length b).run (as.flatMap enc ++ rest) = (as.foldlM g b).map (·, rest)
  | [], _, _, _ => rfl
  | a :: as, b, rest, hP => by
    have hrest : ∀ c ∈ as, P c := fun c hc => hP c (List.mem_cons_of_mem a hc)
    rw [List.length_cons, readLoop, List.flatMap_cons, List.append_assoc, StateT.run_bind,
      hstep b a _ (hP a List.mem_cons_self), List.foldlM_cons]
    cases g b a with
    | none => rfl
    | some b' => exact readLoop_run hstep as b' rest hrest

/-- A fold over a fixed list whose step reads what was written for its element: the reads are
the fold of the updates. -/
theorem foldlM_run {γ : Type} {step : β → γ → Reader β} {enc : γ → List UInt8}
    {upd : β → γ → β} :
    ∀ (fs : List γ), (∀ f ∈ fs, ∀ b rest, (step b f).run (enc f ++ rest) = some (upd b f, rest)) →
      ∀ b rest, (fs.foldlM step b).run (fs.flatMap enc ++ rest) = some (fs.foldl upd b, rest)
  | [], _, _, _ => rfl
  | f :: fs, h, b, rest => by
    rw [List.foldlM_cons, List.flatMap_cons, List.append_assoc,
      run_bind_of_run (h f List.mem_cons_self b _), List.foldl_cons]
    exact foldlM_run fs (fun f' hf' => h f' (List.mem_cons_of_mem f hf')) _ rest

end

/-! ## Fixed layouts

A check that a string has a fixed layout (its length, and fixed bytes at fixed positions around a
field) is a check that it is that layout with its own bytes in the field. -/

/-- A string of a layout's length with the layout's fixed bytes in place is the layout with the
field filled by its own bytes. -/
theorem eq_layout {α : Type} {l pre post : List α} {k : Nat}
    (hlen : l.length = pre.length + k + post.length)
    (hpre : ∀ i, i < pre.length → l[i]? = pre[i]?)
    (hpost : ∀ i, i < post.length → l[pre.length + k + i]? = post[i]?) :
    l = pre ++ (l.drop pre.length).take k ++ post := by
  have hfield : ((l.drop pre.length).take k).length = k := by
    rw [List.length_take, List.length_drop]
    omega
  apply List.ext_getElem?
  intro i
  rw [List.append_assoc]
  by_cases h1 : i < pre.length
  · rw [List.getElem?_append_left h1]
    exact hpre i h1
  rw [List.getElem?_append_right (by omega)]
  by_cases h2 : i - pre.length < k
  · rw [List.getElem?_append_left (by omega), List.getElem?_take_of_lt h2, List.getElem?_drop,
      Nat.add_sub_cancel' (by omega)]
  rw [List.getElem?_append_right (by omega), hfield]
  by_cases h3 : i - pre.length - k < post.length
  · rw [← hpost _ h3]
    congr 1
    omega
  · rw [List.getElem?_eq_none (by omega), List.getElem?_eq_none (by omega)]

/-! ## Numbers of a fixed width -/

/-- The `w` little-endian bytes of `n`, modulo `2 ^ (8 * w)`. -/
def encLE : Nat → Nat → List UInt8
  | 0, _ => []
  | w + 1, n => UInt8.ofNat n :: encLE w (n / 256)

/-- The number that little-endian bytes spell. -/
def decLE : List UInt8 → Nat
  | [] => 0
  | b :: bs => b.toNat + 256 * decLE bs

@[simp] theorem encLE_length : ∀ (w n : Nat), (encLE w n).length = w
  | 0, _ => rfl
  | w + 1, n => by rw [encLE, List.length_cons, encLE_length w]

theorem decLE_encLE : ∀ (w n : Nat), decLE (encLE w n) = n % 2 ^ (8 * w)
  | 0, n => by simp [encLE, decLE, Nat.mod_one]
  | w + 1, n => by
    have hpow : 2 ^ (8 * (w + 1)) = 256 * 2 ^ (8 * w) := by
      rw [Nat.mul_succ, Nat.pow_add, Nat.mul_comm]
    rw [encLE, decLE, decLE_encLE w, hpow, Nat.mod_mul, UInt8.toNat_ofNat']

/-- Read a `w`-byte little-endian number. -/
def readLE (w : Nat) : Reader Nat := do
  let bs ← readBytes w
  pure (decLE bs)

theorem readLE_run (w n : Nat) (rest : List UInt8) :
    (readLE w).run (encLE w n ++ rest) = some (n % 2 ^ (8 * w), rest) := by
  have hbytes := readBytes_run (encLE w n) rest
  rw [encLE_length] at hbytes
  unfold readLE
  rw [run_bind_of_run hbytes, decLE_encLE]
  rfl

/-- The `w` big-endian bytes of `n`, modulo `2 ^ (8 * w)`. -/
def encBE (w n : Nat) : List UInt8 := (encLE w n).reverse

theorem decLE_lt : ∀ bs : List UInt8, decLE bs < 2 ^ (8 * bs.length)
  | [] => by simp [decLE]
  | b :: bs => by
    have hbs := decLE_lt bs
    have hb := b.toNat_lt
    rw [decLE, List.length_cons, Nat.mul_succ, Nat.pow_add]
    omega

/-- The number that little-endian bytes spell splits at any point, the bytes after it counting
from the length before. -/
theorem decLE_append : ∀ (bs cs : List UInt8),
    decLE (bs ++ cs) = decLE bs + 256 ^ bs.length * decLE cs
  | [], cs => by simp [decLE]
  | b :: bs, cs => by
    rw [List.cons_append, decLE, decLE, decLE_append bs cs, List.length_cons, Nat.pow_succ,
      Nat.mul_add, Nat.add_assoc, Nat.mul_comm (256 ^ bs.length) 256, Nat.mul_assoc]

/-- Little-endian bytes are the encoding of the number they spell, at their own width. -/
theorem encLE_decLE : ∀ bs : List UInt8, encLE bs.length (decLE bs) = bs
  | [] => rfl
  | b :: bs => by
    have hb := b.toNat_lt
    have hlow : UInt8.ofNat (b.toNat + 256 * decLE bs) = b := by
      apply UInt8.toNat_inj.mp
      rw [UInt8.toNat_ofNat']
      omega
    have hhigh : (b.toNat + 256 * decLE bs) / 256 = decLE bs := by omega
    rw [List.length_cons, encLE, decLE, hlow, hhigh, encLE_decLE bs]

/-- A `w`-byte number that was read is the encoding of its value, which is below `2 ^ (8 * w)`. -/
theorem readLE_eq_some {w n : Nat} {s t : List UInt8} (h : (readLE w).run s = some (n, t)) :
    s = encLE w n ++ t ∧ n < 2 ^ (8 * w) := by
  unfold readLE at h
  obtain ⟨bs, u, hbs, h⟩ := run_bind_eq_some h
  obtain ⟨rfl, rfl⟩ := run_pure_eq_some h
  obtain ⟨rfl, rfl⟩ := readBytes_eq_some hbs
  exact ⟨by rw [encLE_decLE], decLE_lt bs⟩

/-- Read a `w`-byte big-endian number. -/
def readBE (w : Nat) : Reader Nat := do
  let bs ← readBytes w
  pure (decLE bs.reverse)

@[simp] theorem encBE_length (w n : Nat) : (encBE w n).length = w := by
  simp [encBE]

theorem readBE_run (w n : Nat) (rest : List UInt8) :
    (readBE w).run (encBE w n ++ rest) = some (n % 2 ^ (8 * w), rest) := by
  have hbytes := readBytes_run (encBE w n) rest
  rw [encBE_length] at hbytes
  unfold readBE
  rw [run_bind_of_run hbytes, encBE, List.reverse_reverse, decLE_encLE]
  rfl

/-! ## Byte strings compared with `memcmp` -/

/-- `memcmp(a, b, n) < 0` on strings of `n` bytes: the first byte where they differ decides, read
as an `unsigned char`. -/
def memcmpLt : List UInt8 → List UInt8 → Bool
  | a :: as, b :: bs => if a < b then true else if b < a then false else memcmpLt as bs
  | _, _ => false

/-- The digit in front of the lower ones decides: below the other's, the number is below. -/
theorem add_mul_lt_add_mul {P x y : Nat} {c d : UInt8} (hx : x < P) (hcd : c < d) :
    x + P * c.toNat < y + P * d.toNat :=
  have hcd' : c.toNat + 1 ≤ d.toNat := UInt8.lt_iff_toNat_lt.1 hcd
  calc x + P * c.toNat < P + P * c.toNat := by omega
    _ = P * (c.toNat + 1) := by rw [Nat.mul_succ, Nat.add_comm]
    _ ≤ P * d.toNat := Nat.mul_le_mul_left P hcd'
    _ ≤ y + P * d.toNat := Nat.le_add_left _ _

/-- Strings of one length compare under `memcmp` as the big-endian numbers they spell. -/
theorem memcmpLt_iff : ∀ {as bs : List UInt8}, as.length = bs.length →
    (memcmpLt as bs = true ↔ decLE as.reverse < decLE bs.reverse)
  | [], [], _ => by simp [memcmpLt, decLE]
  | [], _ :: _, h | _ :: _, [], h => by simp at h
  | a :: as, b :: bs, h => by
    have hlen : as.length = bs.length := by simpa using h
    -- the first byte is the most significant digit, worth `256 ^ as.length`
    have hsplit : ∀ (c : UInt8) (cs : List UInt8),
        decLE (c :: cs).reverse = decLE cs.reverse + 256 ^ cs.length * c.toNat := by
      intro c cs
      simp [decLE_append, decLE]
    have hx : decLE as.reverse < 256 ^ as.length := by
      simpa [Nat.pow_mul] using decLE_lt as.reverse
    have hy : decLE bs.reverse < 256 ^ as.length := by
      simpa [hlen, Nat.pow_mul] using decLE_lt bs.reverse
    rw [hsplit, hsplit, ← hlen, memcmpLt]
    split_ifs with hab hba
    · simpa using add_mul_lt_add_mul hx hab
    · simpa using (add_mul_lt_add_mul hy hba).le
    · obtain rfl : a = b := UInt8.le_antisymm (UInt8.not_lt.1 hba) (UInt8.not_lt.1 hab)
      rw [memcmpLt_iff hlen]
      exact Nat.add_lt_add_iff_right.symm

/-- Strings of one length that spell one big-endian number are equal. -/
theorem eq_of_decLE_reverse_eq {as bs : List UInt8} (hlen : as.length = bs.length)
    (h : decLE as.reverse = decLE bs.reverse) : as = bs := by
  have ha := encLE_decLE as.reverse
  have hb := encLE_decLE bs.reverse
  rw [List.length_reverse] at ha hb
  rw [← hlen, ← h, ha] at hb
  exact List.reverse_injective hb

end Codec
