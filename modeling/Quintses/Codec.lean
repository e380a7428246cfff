import Mathlib.Data.Nat.Digits.Lemmas
import Mathlib.Data.Vector.Basic

/-! Fixed-size words as bytes in either byte order, and readers that take what
they need from the front of a byte sequence or fail. -/

inductive ByteOrder
  | little
  | big
  deriving DecidableEq

namespace ByteOrder

def arrange : ByteOrder → List UInt8 → List UInt8
  | little, bs => bs
  | big, bs => bs.reverse

@[simp] theorem arrange_arrange (o : ByteOrder) (bs : List UInt8) :
    o.arrange (o.arrange bs) = bs := by
  cases o <;> simp [arrange]

@[simp] theorem length_arrange (o : ByteOrder) (bs : List UInt8) :
    (o.arrange bs).length = bs.length := by
  cases o <;> simp [arrange]

def split : Nat → Nat → List UInt8
  | 0, _ => []
  | size + 1, x => UInt8.ofNat x :: split size (x / 256)

def join (bs : List UInt8) : Nat := Nat.ofDigits 256 (bs.map UInt8.toNat)

@[simp] theorem length_split (size x : Nat) : (split size x).length = size := by
  induction size generalizing x with
  | zero => rfl
  | succ size ih => simp [split, ih]

theorem join_cons (b : UInt8) (bs : List UInt8) : join (b :: bs) = b.toNat + 256 * join bs := by
  simp [join, Nat.ofDigits_cons]

theorem join_lt (bs : List UInt8) : join bs < 256 ^ bs.length := by
  have hh := Nat.ofDigits_lt_base_pow_length (b := 256) (l := bs.map UInt8.toNat) (by decide)
    (fun x hx => by
      obtain ⟨b, _, rfl⟩ := List.mem_map.mp hx
      exact b.toNat_lt)
  simpa [join] using hh

theorem join_split {size x : Nat} (hx : x < 256 ^ size) : join (split size x) = x := by
  induction size generalizing x with
  | zero =>
    have : x = 0 := by simpa using hx
    simp [split, join, this]
  | succ size ih =>
    have hdiv : x / 256 < 256 ^ size := by
      rw [Nat.div_lt_iff_lt_mul (by decide)]
      simpa [Nat.pow_succ] using hx
    rw [split, join_cons, ih hdiv, UInt8.toNat_ofNat']
    omega

theorem split_join (bs : List UInt8) : split bs.length (join bs) = bs := by
  induction bs with
  | nil => rfl
  | cons b bs ih =>
    have hb := b.toNat_lt
    have hdiv : (b.toNat + 256 * join bs) / 256 = join bs := by omega
    have hmod : UInt8.ofNat (b.toNat + 256 * join bs) = b := by
      apply UInt8.toNat_inj.mp
      rw [UInt8.toNat_ofNat']
      omega
    rw [List.length_cons, split, join_cons, hdiv, hmod, ih]

end ByteOrder

class Pod (τ : Type) where
  size : Nat
  toBytes : ByteOrder → τ → List UInt8
  ofBytes : ByteOrder → List UInt8 → τ
  length_toBytes : ∀ o x, (toBytes o x).length = size
  ofBytes_toBytes : ∀ o x, ofBytes o (toBytes o x) = x
  toBytes_ofBytes : ∀ o bs, bs.length = size → toBytes o (ofBytes o bs) = bs

instance : Pod UInt32 where
  size := 4
  toBytes o x := o.arrange (ByteOrder.split 4 x.toNat)
  ofBytes o bs := UInt32.ofNat (ByteOrder.join (o.arrange bs))
  length_toBytes o x := by simp
  ofBytes_toBytes o x := by
    have hlt : x.toNat < 256 ^ 4 := x.toNat_lt
    simp [ByteOrder.join_split hlt]
  toBytes_ofBytes o bs hlen := by
    have hlt := ByteOrder.join_lt (o.arrange bs)
    rw [ByteOrder.length_arrange, hlen] at hlt
    rw [UInt32.toNat_ofNat_of_lt' hlt, ← hlen, ← ByteOrder.length_arrange o bs,
      ByteOrder.split_join, ByteOrder.arrange_arrange]

instance : Pod UInt16 where
  size := 2
  toBytes o x := o.arrange (ByteOrder.split 2 x.toNat)
  ofBytes o bs := UInt16.ofNat (ByteOrder.join (o.arrange bs))
  length_toBytes o x := by simp
  ofBytes_toBytes o x := by
    have hlt : x.toNat < 256 ^ 2 := x.toNat_lt
    simp [ByteOrder.join_split hlt]
  toBytes_ofBytes o bs hlen := by
    have hlt := ByteOrder.join_lt (o.arrange bs)
    rw [ByteOrder.length_arrange, hlen] at hlt
    rw [UInt16.toNat_ofNat_of_lt' hlt, ← hlen, ← ByteOrder.length_arrange o bs,
      ByteOrder.split_join, ByteOrder.arrange_arrange]

/-- A reader over symbols `β` that may fail with an `ε`. -/
abbrev Reader (β ε α : Type) := StateT (List β) (Except ε) α

namespace Reader

variable {β ε α γ : Type}

/-- The next `n` symbols, or the failure of a source that ends before. -/
def take (ended : ε) (n : Nat) : Reader β ε (List.Vector β n) := fun s =>
  if h : n ≤ s.length then .ok (⟨s.take n, List.length_take_of_le h⟩, s.drop n) else .error ended

theorem take_of_lt {ended : ε} {n : Nat} {s : List β} (h : s.length < n) :
    take ended n s = .error ended := by
  simp [take, Nat.not_le_of_lt h]

theorem take_of_le {ended : ε} {n : Nat} {s : List β} (h : n ≤ s.length) :
    take ended n s = .ok (⟨s.take n, List.length_take_of_le h⟩, s.drop n) := by
  simp [take, h]

theorem bind_run (r : Reader β ε α) (f : α → Reader β ε γ) (s : List β) :
    (r >>= f) s = (r s).bind (fun p => f p.1 p.2) := rfl

theorem map_error (f : α → γ) {r : Reader β ε α} {s : List β} {e : ε} (h : r s = .error e) :
    (f <$> r) s = .error e := by
  change Except.bind (r s) _ = _
  rw [h]
  rfl

/-- The reader succeeds exactly on the sequences that start with some `bs`
related to the value it returns, and leaves what follows `bs`. -/
def Reads (r : Reader β ε α) (layout : List β → α → Prop) : Prop :=
  ∀ s a rest, r s = .ok (a, rest) ↔ ∃ bs, s = bs ++ rest ∧ layout bs a

theorem Reads.run {r : Reader β ε α} {layout : List β → α → Prop} (hr : Reads r layout)
    {bs : List β} {a : α} (h : layout bs a) (rest : List β) : r (bs ++ rest) = .ok (a, rest) :=
  (hr _ a rest).mpr ⟨bs, rfl, h⟩

theorem Reads.congr {r : Reader β ε α} {p q : List β → α → Prop} (hr : Reads r p)
    (hpq : ∀ bs a, p bs a ↔ q bs a) : Reads r q := by
  intro s a rest
  simp only [hr s a rest, hpq]

theorem reads_pure (a : α) : Reads (pure a : Reader β ε α) (fun bs b => bs = [] ∧ b = a) := by
  intro s b rest
  change Except.ok (a, s) = .ok (b, rest) ↔ _
  constructor
  · intro he
    obtain ⟨rfl, rfl⟩ := Prod.mk.inj (Except.ok.inj he)
    exact ⟨[], rfl, rfl, rfl⟩
  · rintro ⟨bs, rfl, rfl, rfl⟩
    rfl

theorem Reads.bind {r : Reader β ε α} {f : α → Reader β ε γ} {p : List β → α → Prop}
    {q : α → List β → γ → Prop} (hr : Reads r p) (hf : ∀ a, Reads (f a) (q a)) :
    Reads (r >>= f) (fun bs c => ∃ pre post a, bs = pre ++ post ∧ p pre a ∧ q a post c) := by
  intro s c rest
  rw [bind_run]
  constructor
  · intro he
    cases hs : r s with
    | error e => simp [hs, Except.bind] at he
    | ok v =>
      obtain ⟨a, s'⟩ := v
      rw [hs] at he
      obtain ⟨pre, rfl, hp⟩ := (hr s a s').mp hs
      obtain ⟨post, rfl, hq⟩ := (hf a s' c rest).mp he
      exact ⟨pre ++ post, (List.append_assoc ..).symm, pre, post, a, rfl, hp, hq⟩
  · rintro ⟨_, rfl, pre, post, a, rfl, hp, hq⟩
    rw [List.append_assoc, hr.run hp]
    exact (hf a).run hq rest

theorem Reads.map {r : Reader β ε α} {p : List β → α → Prop} (hr : Reads r p) (f : α → γ) :
    Reads (f <$> r) (fun bs c => ∃ a, p bs a ∧ c = f a) := by
  have hh := hr.bind (fun a => reads_pure (ε := ε) (f a))
  refine Reads.congr (r := f <$> r) hh (fun bs c => ?_)
  simp

theorem reads_take (ended : ε) (n : Nat) :
    Reads (take ended n : Reader β ε (List.Vector β n)) (fun bs v => bs = v.toList) := by
  intro s v rest
  constructor
  · intro he
    by_cases hn : n ≤ s.length
    · rw [take_of_le hn] at he
      obtain ⟨rfl, rfl⟩ := Prod.mk.inj (Except.ok.inj he)
      exact ⟨s.take n, (List.take_append_drop n s).symm, rfl⟩
    · simp [take_of_lt (Nat.lt_of_not_le hn)] at he
  · rintro ⟨_, rfl, rfl⟩
    obtain ⟨l, rfl⟩ := v
    simp [take, List.Vector.toList]

end Reader
