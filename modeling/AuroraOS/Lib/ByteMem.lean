import Mathlib.Tactic

/-!
# Byte memory

A memory maps addresses to bytes. A word of `n` bytes is kept with its least significant byte first.
A write is invisible to every word that it does not overlap.
-/

namespace ByteMem

open Function

/-- The contents of a memory. -/
abbrev Mem := Nat → UInt8

variable {m m' : Mem} {a n v x : Nat}

/-- The word of `n` bytes at `a`. -/
def load (m : Mem) : Nat → Nat → Nat
  | _, 0 => 0
  | a, n + 1 => (m a).toNat + 256 * load m (a + 1) n

/-- Write a word of `n` bytes to `a`. -/
def store (m : Mem) : Nat → Nat → Nat → Mem
  | _, 0, _ => m
  | a, n + 1, v => store (Function.update m a (UInt8.ofNat v)) (a + 1) n (v / 256)

/-- The word of `n` bytes at position `a` of a list, with zeros behind the list. -/
def word (bytes : List UInt8) (a n : Nat) : Nat := load (fun i => bytes.getD i 0) a n

/-- Write `n` times the byte `b`, from `a` on. -/
def fill (m : Mem) (a n : Nat) (b : UInt8) : Mem :=
  (List.range n).foldl (fun m i => Function.update m (a + i) b) m

/-- Write a list of bytes, from `a` on. -/
def copy (m : Mem) (a : Nat) (bytes : List UInt8) : Mem :=
  fun x => if a ≤ x ∧ x < a + bytes.length then bytes.getD (x - a) 0 else m x

/-! ## Words -/

/-- A word depends on its own bytes only. -/
theorem load_congr (h : ∀ y, a ≤ y → y < a + n → m' y = m y) : load m' a n = load m a n := by
  induction n generalizing a with
  | zero => rfl
  | succ n ih =>
    have hrest : load m' (a + 1) n = load m (a + 1) n := by
      apply ih
      intro y hy hlt
      exact h y (by omega) (by omega)
    rw [load, load, h a le_rfl (by omega), hrest]

variable (m : Mem)

theorem load_lt (a n : Nat) : load m a n < 256 ^ n := by
  induction n generalizing a with
  | zero => exact Nat.one_pos
  | succ n ih =>
    have hbyte : (m a).toNat < 256 := (m a).toNat_lt
    have hrest := ih (a + 1)
    rw [load]
    omega

/-- A write changes its own bytes only. -/
theorem store_apply_of_lt (n v : Nat) (h : x < a) : store m a n v x = m x := by
  induction n generalizing m a v with
  | zero => rfl
  | succ n ih =>
    rw [store, ih _ _ (by omega), update_of_ne (by omega)]

theorem store_apply_of_le (v : Nat) (h : a + n ≤ x) : store m a n v x = m x := by
  induction n generalizing m a v with
  | zero => rfl
  | succ n ih =>
    rw [store, ih _ _ (by omega), update_of_ne (by omega)]

theorem store_apply_outside (v : Nat) (h : x < a ∨ a + n ≤ x) : store m a n v x = m x := by
  rcases h with h | h
  · exact store_apply_of_lt m n v h
  · exact store_apply_of_le m v h

/-- What a write makes of its bytes does not depend on the memory. -/
theorem store_apply_inside (m m' : Mem) (v : Nat) (h : a ≤ x) (h' : x < a + n) :
    store m a n v x = store m' a n v x := by
  induction n generalizing m m' a v with
  | zero => omega
  | succ n ih =>
    rcases h.eq_or_lt with rfl | hlt
    · rw [store, store, store_apply_of_lt _ _ _ (Nat.lt_succ_self a),
        store_apply_of_lt _ _ _ (Nat.lt_succ_self a), update_self, update_self]
    · exact ih _ _ _ hlt (by omega)

/-- **A word is read back as it was written.** -/
theorem load_store_same (a n v : Nat) : load (store m a n v) a n = v % 256 ^ n := by
  induction n generalizing m a v with
  | zero => simp [load, Nat.mod_one]
  | succ n ih =>
    have hbyte : (UInt8.ofNat v).toNat = v % 256 := UInt8.toNat_ofNat'
    rw [store, load, ih, store_apply_of_lt _ _ _ (Nat.lt_succ_self a), update_self, hbyte,
      pow_succ', Nat.mod_mul]

/-- A write is invisible to a word that it does not overlap. -/
theorem load_store_of_disjoint (v : Nat) {b k : Nat} (h : b + k ≤ a ∨ a + n ≤ b) :
    load (store m a n v) b k = load m b k := by
  apply load_congr
  intro y hy hlt
  apply store_apply_outside
  omega

/-- **A word is masked byte by byte.** -/
theorem store_and (m' : Mem) (a a' n : Nat) (x : Nat) :
    store m a n (load m a n &&& load m' a' n) x =
      if a ≤ x ∧ x < a + n then m x &&& m' (a' + (x - a)) else m x := by
  induction n generalizing m a a' with
  | zero => simp [store]
  | succ n ih =>
    have hlow := (m a).toNat_lt
    have hlow' := (m' a').toNat_lt
    have hbyte : UInt8.ofNat (load m a (n + 1) &&& load m' a' (n + 1)) = m a &&& m' a' := by
      rw [← UInt8.toNat_inj, UInt8.toNat_ofNat', UInt8.toNat_and, Nat.and_mod_two_pow, load, load]
      congr 1 <;> omega
    have hrest : (load m a (n + 1) &&& load m' a' (n + 1)) / 256 =
        load m (a + 1) n &&& load m' (a' + 1) n := by
      rw [show 256 = 2 ^ 8 from rfl, Nat.and_div_two_pow, load, load]
      congr 1 <;> omega
    have hload : load m (a + 1) n = load (update m a (m a &&& m' a')) (a + 1) n :=
      load_congr fun y hy _ => (update_of_ne (by omega) ..).symm
    rw [store, hbyte, hrest, hload, ih]
    rcases eq_or_ne x a with rfl | hx
    · rw [if_neg (by omega), update_self, if_pos (by omega), Nat.sub_self, Nat.add_zero]
    · rw [update_of_ne hx]
      simp only [show a + 1 ≤ x ∧ x < a + 1 + n ↔ a ≤ x ∧ x < a + (n + 1) by omega]
      split_ifs
      · rw [show a' + 1 + (x - (a + 1)) = a' + (x - a) by omega]
      · rfl

/-! ## Filling -/

theorem fill_apply (a n : Nat) (b : UInt8) (x : Nat) :
    fill m a n b x = if a ≤ x ∧ x < a + n then b else m x := by
  induction n with
  | zero =>
    rw [if_neg (by omega)]
    rfl
  | succ n ih =>
    unfold fill at ih ⊢
    rw [List.range_succ, List.foldl_append, List.foldl_cons, List.foldl_nil,
      update_apply, ih]
    split_ifs <;> first | rfl | omega

/-- The words of memory that was filled with zeros. -/
theorem load_fill_zero {b k : Nat} (hlo : a ≤ b) (hhi : b + k ≤ a + n) :
    load (fill m a n 0) b k = 0 := by
  induction k generalizing b with
  | zero => rfl
  | succ k ih =>
    rw [load, ih (by omega) (by omega), fill_apply, if_pos (by omega)]
    rfl

/-! ## Lists of bytes -/

/-- The bytes of a word. -/
def bytesOf : Nat → Nat → List UInt8
  | 0, _ => []
  | n + 1, v => UInt8.ofNat v :: bytesOf n (v / 256)

@[simp] theorem length_bytesOf (n v : Nat) : (bytesOf n v).length = n := by
  induction n generalizing v with
  | zero => rfl
  | succ n ih => rw [bytesOf, List.length_cons, ih]

theorem word_drop (bytes : List UInt8) (k a n : Nat) :
    word (bytes.drop k) a n = word bytes (k + a) n := by
  induction n generalizing a with
  | zero => rfl
  | succ n ih =>
    have hbyte : (bytes.drop k).getD a 0 = bytes.getD (k + a) 0 := by simp
    simp only [word, load] at ih ⊢
    rw [ih, hbyte, Nat.add_assoc]

/-- A list starts with the bytes of a word if the word stands there. -/
theorem bytesOf_prefix_iff (bytes : List UInt8) (n v : Nat) :
    bytesOf n v <+: bytes ↔ n ≤ bytes.length ∧ word bytes 0 n = v % 256 ^ n := by
  induction n generalizing v bytes with
  | zero => simp [bytesOf, word, load, Nat.mod_one]
  | succ n ih =>
    cases bytes with
    | nil => simp [bytesOf]
    | cons b bytes =>
      have hrest : word (b :: bytes) 0 (n + 1) = b.toNat + 256 * word bytes 0 n := by
        rw [show bytes = (b :: bytes).drop 1 from rfl, word_drop]
        rfl
      have hbyte : UInt8.ofNat v = b ↔ v % 256 = b.toNat := by
        rw [← UInt8.toNat_inj, UInt8.toNat_ofNat']
      have := b.toNat_lt
      rw [bytesOf, List.cons_prefix_cons, ih, hrest, hbyte, pow_succ', Nat.mod_mul,
        List.length_cons]
      omega

theorem append_prefix_iff {α : Type*} (l₁ l₂ l : List α) :
    l₁ ++ l₂ <+: l ↔ l₁ <+: l ∧ l₂ <+: l.drop l₁.length := by
  constructor
  · rintro ⟨t, rfl⟩
    simp
  · rintro ⟨⟨t, rfl⟩, h⟩
    simpa using h

end ByteMem
