import Mathlib.Data.List.Basic
import Mathlib.Algebra.Order.Group.Nat
import Mathlib.Tactic.Ring

/-! # Byte formats

A format writes values as bytes and reads one value from the front of a byte string. It carries
the law that reading gives back what was written, for the values that fit. Formats are built from
words and byte strings by sequencing, repetition and change of type. -/
namespace ByteFormats

/-- The `width` bytes of a natural number, the least significant one first. -/
def leBytes : ℕ → ℕ → List UInt8
  | 0, _ => []
  | width + 1, n => UInt8.ofNat (n % 256) :: leBytes width (n / 256)

def leValue : List UInt8 → ℕ
  | [] => 0
  | b :: rest => b.toNat + 256 * leValue rest

def beBytes (width n : ℕ) : List UInt8 := (leBytes width n).reverse

def beValue (bytes : List UInt8) : ℕ := leValue bytes.reverse

@[simp] theorem leBytes_length (width n : ℕ) : (leBytes width n).length = width := by
  induction width generalizing n with
  | zero => rfl
  | succ width ih => simp [leBytes, ih]

@[simp] theorem beBytes_length (width n : ℕ) : (beBytes width n).length = width := by
  simp [beBytes]

theorem leValue_leBytes {width n : ℕ} (h : n < 256 ^ width) : leValue (leBytes width n) = n := by
  induction width generalizing n with
  | zero =>
    rw [pow_zero, Nat.lt_one_iff] at h
    subst h
    rfl
  | succ width ih =>
    have hbyte : (UInt8.ofNat (n % 256)).toNat = n % 256 := by simp
    have hrest : n / 256 < 256 ^ width := by
      rw [Nat.div_lt_iff_lt_mul (by decide), ← pow_succ]
      exact h
    rw [leBytes, leValue, hbyte, ih hrest]
    exact Nat.mod_add_div n 256

theorem beValue_beBytes {width n : ℕ} (h : n < 256 ^ width) : beValue (beBytes width n) = n := by
  rw [beValue, beBytes, List.reverse_reverse, leValue_leBytes h]

theorem leValue_lt (bytes : List UInt8) : leValue bytes < 256 ^ bytes.length := by
  induction bytes with
  | nil => decide
  | cons b rest ih =>
    have hb : b.toNat < 256 := b.toNat_lt
    rw [leValue, List.length_cons, pow_succ]
    omega

theorem leBytes_leValue (bytes : List UInt8) : leBytes bytes.length (leValue bytes) = bytes := by
  induction bytes with
  | nil => rfl
  | cons b rest ih =>
    have hb : b.toNat < 256 := b.toNat_lt
    have hlow : (b.toNat + 256 * leValue rest) % 256 = b.toNat := by omega
    have hhigh : (b.toNat + 256 * leValue rest) / 256 = leValue rest := by omega
    simp only [leValue, List.length_cons, leBytes, hlow, hhigh, ih, UInt8.ofNat_toNat]

structure Format (α : Type) where
  put : α → List UInt8
  get : List UInt8 → Option (α × List UInt8)
  fits : α → Prop
  get_put : ∀ a, fits a → ∀ rest, get (put a ++ rest) = some (a, rest)

namespace Format

variable {α β : Type}

/-- Without anything behind it a written value is read with nothing left. -/
theorem get_put_all (f : Format α) {a : α} (h : f.fits a) : f.get (f.put a) = some (a, []) := by
  have hput := f.get_put a h []
  rwa [List.append_nil] at hput

/-- A string of fixed length, wrapped into a type that knows the length. -/
def fixed (size : ℕ) (bytes : α → List UInt8) (make : ∀ l : List UInt8, l.length = size → α)
    (length_bytes : ∀ a, (bytes a).length = size)
    (make_bytes : ∀ a h, make (bytes a) h = a) : Format α where
  put := bytes
  get input := if h : (input.take size).length = size then some (make (input.take size) h, input.drop size)
    else none
  fits _ := True
  get_put a _ rest := by
    have htake : (bytes a ++ rest).take size = bytes a := List.take_left' (length_bytes a)
    have hdrop : (bytes a ++ rest).drop size = rest := List.drop_left' (length_bytes a)
    have hlength : ((bytes a ++ rest).take size).length = size := by rw [htake, length_bytes a]
    rw [dif_pos hlength, hdrop]
    have hmake : make ((bytes a ++ rest).take size) hlength = a := by
      simp only [htake]
      exact make_bytes a _
    rw [hmake]

/-- A word of some width, in the byte order of the two functions. -/
def word (width : ℕ) (toBytes : ℕ → List UInt8) (value : List UInt8 → ℕ)
    (length_bytes : ∀ n, (toBytes n).length = width)
    (value_bytes : ∀ n, n < 256 ^ width → value (toBytes n) = n) : Format ℕ where
  put := toBytes
  get input := if input.length < width then none else some (value (input.take width), input.drop width)
  fits n := n < 256 ^ width
  get_put n h rest := by
    have htake : (toBytes n ++ rest).take width = toBytes n := List.take_left' (length_bytes n)
    have hdrop : (toBytes n ++ rest).drop width = rest := List.drop_left' (length_bytes n)
    have hlength : ¬ (toBytes n ++ rest).length < width := by
      rw [List.length_append, length_bytes n]
      omega
    rw [if_neg hlength, htake, hdrop, value_bytes n h]

def le (width : ℕ) : Format ℕ :=
  word width (leBytes width) leValue (leBytes_length width) fun _ => leValue_leBytes

def be (width : ℕ) : Format ℕ :=
  word width (beBytes width) beValue (beBytes_length width) fun _ => beValue_beBytes

def u8 : Format UInt8 where
  put b := [b]
  get
    | [] => none
    | b :: rest => some (b, rest)
  fits _ := True
  get_put _ _ _ := rfl

def seq (f : Format α) (g : Format β) : Format (α × β) where
  put p := f.put p.1 ++ g.put p.2
  get input := do
    let (a, rest) ← f.get input
    let (b, rest) ← g.get rest
    some ((a, b), rest)
  fits p := f.fits p.1 ∧ g.fits p.2
  get_put p h rest := by
    rw [List.append_assoc, f.get_put p.1 h.1]
    simp [g.get_put p.2 h.2]

def map (f : Format α) (view : β → α) (make : α → β) (make_view : ∀ b, make (view b) = b) :
    Format β where
  put b := f.put (view b)
  get input := (f.get input).map fun (a, rest) => (make a, rest)
  fits b := f.fits (view b)
  get_put b h rest := by simp [f.get_put (view b) h, make_view]

def getMany (f : Format α) : ℕ → List UInt8 → Option (List α × List UInt8)
  | 0, input => some ([], input)
  | count + 1, input => do
    let (a, rest) ← f.get input
    let (items, rest) ← getMany f count rest
    some (a :: items, rest)

theorem getMany_put (f : Format α) (items : List α) (h : ∀ a ∈ items, f.fits a)
    (rest : List UInt8) : f.getMany items.length (items.flatMap f.put ++ rest) = some (items, rest) := by
  induction items with
  | nil => rfl
  | cons a items ih =>
    have hrest := ih fun b hb => h b (List.mem_cons_of_mem a hb)
    simp only [List.length_cons, getMany, List.flatMap_cons, List.append_assoc,
      f.get_put a (h a List.mem_cons_self), Option.bind_eq_bind, Option.bind_some, hrest]

def many (f : Format α) (count : ℕ) : Format (List α) where
  put items := items.flatMap f.put
  get := f.getMany count
  fits items := items.length = count ∧ ∀ a ∈ items, f.fits a
  get_put items h rest := by
    rw [← h.1]
    exact f.getMany_put items h.2 rest

def u64le : Format UInt64 := (le 8).map UInt64.toNat UInt64.ofNat fun _ => UInt64.ofNat_toNat

def u64be : Format UInt64 := (be 8).map UInt64.toNat UInt64.ofNat fun _ => UInt64.ofNat_toNat

@[simp] theorem u64le_fits (a : UInt64) : u64le.fits a := a.toNat_lt

@[simp] theorem u64be_fits (a : UInt64) : u64be.fits a := a.toNat_lt

/-- A byte string behind its length, a little-endian word of four bytes. -/
def varData : Format (List UInt8) where
  put bytes := leBytes 4 bytes.length ++ bytes
  get input := do
    let (length, rest) ← (le 4).get input
    if rest.length < length then none else some (rest.take length, rest.drop length)
  fits bytes := bytes.length < 256 ^ 4
  get_put bytes h rest := by
    have hword := (le 4).get_put bytes.length h (bytes ++ rest)
    change (le 4).get (leBytes 4 bytes.length ++ (bytes ++ rest)) = _ at hword
    rw [List.append_assoc, hword]
    simp

@[simp] theorem fixed_put_length {size : ℕ} {bytes : α → List UInt8}
    {make : ∀ l : List UInt8, l.length = size → α} {hlength : ∀ a, (bytes a).length = size}
    {hmake : ∀ a h, make (bytes a) h = a} (a : α) :
    ((fixed size bytes make hlength hmake).put a).length = size := hlength a

@[simp] theorem u8_put_length (a : UInt8) : (u8.put a).length = 1 := rfl

@[simp] theorem le_put_length (width n : ℕ) : ((le width).put n).length = width :=
  leBytes_length width n

@[simp] theorem be_put_length (width n : ℕ) : ((be width).put n).length = width :=
  beBytes_length width n

@[simp] theorem u64le_put_length (a : UInt64) : (u64le.put a).length = 8 := leBytes_length 8 _

@[simp] theorem u64be_put_length (a : UInt64) : (u64be.put a).length = 8 := beBytes_length 8 _

@[simp] theorem seq_put_length (f : Format α) (g : Format β) (p : α × β) :
    ((f.seq g).put p).length = (f.put p.1).length + (g.put p.2).length := List.length_append

@[simp] theorem map_put_length {f : Format α} {view : β → α} {make : α → β}
    {make_view : ∀ b, make (view b) = b} (b : β) :
    ((f.map view make make_view).put b).length = (f.put (view b)).length := rfl

@[simp] theorem varData_put_length (bytes : List UInt8) :
    (varData.put bytes).length = 4 + bytes.length := by
  change (leBytes 4 bytes.length ++ bytes).length = _
  simp

/-- What is read fits and is written as the bytes it was read from. -/
def Canonical (f : Format α) : Prop :=
  ∀ ⦃input a rest⦄, f.get input = some (a, rest) → f.fits a ∧ input = f.put a ++ rest

@[simp] theorem be_canonical (width : ℕ) : (be width).Canonical := by
  intro input n rest h
  change (if input.length < width then none
    else some (beValue (input.take width), input.drop width)) = some (n, rest) at h
  split_ifs at h with hshort
  simp only [Option.some.injEq, Prod.mk.injEq] at h
  obtain ⟨rfl, rfl⟩ := h
  have hlength : (input.take width).reverse.length = width := by
    rw [List.length_reverse, List.length_take]
    omega
  have hbytes := leBytes_leValue (input.take width).reverse
  rw [hlength] at hbytes
  refine ⟨?_, ?_⟩
  · have hlt := leValue_lt (input.take width).reverse
    rwa [hlength] at hlt
  · change input = (leBytes width (leValue (input.take width).reverse)).reverse ++ _
    rw [hbytes, List.reverse_reverse, List.take_append_drop]

theorem fixed_canonical {size : ℕ} {bytes : α → List UInt8}
    {make : ∀ l : List UInt8, l.length = size → α} {hlength : ∀ a, (bytes a).length = size}
    {hmake : ∀ a h, make (bytes a) h = a} (hbytes : ∀ l h, bytes (make l h) = l) :
    (fixed size bytes make hlength hmake).Canonical := by
  intro input a rest h
  simp only [fixed] at h
  split_ifs at h
  simp only [Option.some.injEq, Prod.mk.injEq] at h
  obtain ⟨rfl, rfl⟩ := h
  exact ⟨trivial, by simp only [fixed, hbytes, List.take_append_drop]⟩

@[simp] theorem u8_canonical : u8.Canonical := by
  intro input a rest h
  cases input with
  | nil => cases h
  | cons b input =>
    cases h
    exact ⟨trivial, rfl⟩

theorem seq_canonical {f : Format α} {g : Format β} (hf : f.Canonical) (hg : g.Canonical) :
    (f.seq g).Canonical := by
  rintro input ⟨a, b⟩ rest h
  simp only [seq, Option.bind_eq_bind, Option.bind_eq_some_iff, Option.some.injEq,
    Prod.mk.injEq, Prod.exists] at h
  obtain ⟨_, middle, hfirst, _, _, hsecond, ⟨rfl, rfl⟩, rfl⟩ := h
  obtain ⟨hfitsA, rfl⟩ := hf hfirst
  obtain ⟨hfitsB, rfl⟩ := hg hsecond
  exact ⟨⟨hfitsA, hfitsB⟩, (List.append_assoc _ _ _).symm⟩

theorem map_canonical {f : Format α} {view : β → α} {make : α → β}
    {make_view : ∀ b, make (view b) = b} (hf : f.Canonical)
    (hview : ∀ a, f.fits a → view (make a) = a) : (f.map view make make_view).Canonical := by
  intro input b rest h
  simp only [map, Option.map_eq_some_iff, Prod.mk.injEq, Prod.exists] at h
  obtain ⟨a, _, hget, rfl, rfl⟩ := h
  obtain ⟨hfits, rfl⟩ := hf hget
  simp only [map, hview a hfits, hfits, and_self]

@[simp] theorem many_canonical {f : Format α} (hf : f.Canonical) (count : ℕ) : (f.many count).Canonical := by
  induction count with
  | zero =>
    intro input items rest h
    cases h
    exact ⟨⟨rfl, fun _ ha => absurd ha List.not_mem_nil⟩, rfl⟩
  | succ count ih =>
    intro input items rest h
    simp only [many, getMany, Option.bind_eq_bind, Option.bind_eq_some_iff, Option.some.injEq,
      Prod.mk.injEq, Prod.exists] at h
    obtain ⟨a, _, hfirst, items, _, hothers, rfl, rfl⟩ := h
    obtain ⟨hfits, rfl⟩ := hf hfirst
    obtain ⟨⟨hcount, hall⟩, rfl⟩ := ih hothers
    refine ⟨⟨by rw [List.length_cons, hcount], List.forall_mem_cons.mpr ⟨hfits, hall⟩⟩, ?_⟩
    exact (List.append_assoc _ _ _).symm

@[simp] theorem u64be_canonical : u64be.Canonical :=
  map_canonical (be_canonical 8) fun _ h => UInt64.toNat_ofNat_of_lt h

end Format

section Filling

variable {α β : Type*} {step : α → β → α} {push : α → List β → α} {full : α → α} {room : α → ℕ}
  {Open : α → Prop} {a : α} {items : List β}

/-- A machine that fills a buffer item by item and acts on the buffer when it is full. -/
structure Fills (step : α → β → α) (push : α → List β → α) (full : α → α) (room : α → ℕ)
    (Open : α → Prop) : Prop where
  nil a : push a [] = a
  append a items more : push (push a items) more = push a (items ++ more)
  room_push a items : room (push a items) = room a - items.length
  stays a items : Open a → Open (push a items)
  step_eq a b : Open a → 0 < room a →
    step a b = if room a = 1 then full (push a [b]) else push a [b]

theorem Fills.short (h : Fills step push full room Open) (ha : Open a)
    (hshort : items.length < room a) : items.foldl step a = push a items := by
  induction items generalizing a with
  | nil => exact (h.nil a).symm
  | cons b items ih =>
    have hroom := h.room_push a [b]
    rw [List.length_cons] at hshort
    rw [List.length_singleton] at hroom
    rw [List.foldl_cons, h.step_eq a b ha (by omega), if_neg (by omega),
      ih (h.stays a [b] ha) (by omega), h.append, List.singleton_append]

theorem Fills.filled (h : Fills step push full room Open) (ha : Open a) (hsome : 0 < room a)
    (hfull : items.length = room a) : items.foldl step a = full (push a items) := by
  obtain rfl | ⟨front, b, rfl⟩ := items.eq_nil_or_concat'
  · rw [List.length_nil] at hfull
    omega
  · have hroom := h.room_push a front
    rw [List.length_append, List.length_singleton] at hfull
    rw [List.foldl_append, h.short ha (by omega), List.foldl_cons, List.foldl_nil,
      h.step_eq _ b (h.stays a front ha) (by omega), if_pos (by omega), h.append]

end Filling

end ByteFormats
