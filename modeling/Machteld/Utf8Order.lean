import Machteld.Utf16

namespace Machteld

namespace Utf8

theorem compare_cons_cons {α : Type} [Ord α] (a b : α) (s t : List α) :
    compare (a :: s) (b :: t) = (compare a b).then (compare s t) := by
  rw [List.compare_eq_compareLex, List.compareLex_cons_cons, ← List.compare_eq_compareLex]

/-- A byte that is not above another one, with what decides where it is the
same. -/
theorem compare_cons_lt {a b : Nat} {s t : Bytes} (bound : b < 256) (below : a ≤ b)
    (same : a = b → compare s t = .lt) : compare (UInt8.ofNat a :: s) (UInt8.ofNat b :: t) = .lt := by
  rw [compare_cons_cons]
  rcases Nat.lt_or_eq_of_le below with less | equal
  · have first : compare (UInt8.ofNat a) (UInt8.ofNat b) = .lt := by
      refine Std.compare_eq_lt.mpr (UInt8.lt_iff_toNat_lt.mpr ?_)
      rw [toNat_ofNat_lt bound, toNat_ofNat_lt (Nat.lt_of_le_of_lt below bound)]
      exact less
    rw [first]
    rfl
  · have first : compare (UInt8.ofNat a) (UInt8.ofNat b) = .eq := by
      rw [equal]
      exact Std.compare_self
    rw [first, same equal]
    rfl

/-- The lower one of two code points comes first, whatever follows. -/
theorem compare_encode_lt {m n : Nat} (less : m < n) (bound : n < 0x110000) (s t : Bytes) :
    compare (encode m ++ s) (encode n ++ t) = .lt := by
  unfold encode
  split_ifs
  all_goals try omega
  all_goals simp only [List.cons_append, List.nil_append]
  · exact compare_cons_lt (by omega) (by omega) (by omega)
  · exact compare_cons_lt (by omega) (by omega) (by omega)
  · exact compare_cons_lt (by omega) (by omega) (by omega)
  · exact compare_cons_lt (by omega) (by omega) (by omega)
  · exact compare_cons_lt (by omega) (by omega) fun _ => compare_cons_lt (by omega) (by omega) (by omega)
  · exact compare_cons_lt (by omega) (by omega) (by omega)
  · exact compare_cons_lt (by omega) (by omega) (by omega)
  · exact compare_cons_lt (by omega) (by omega) fun _ => compare_cons_lt (by omega) (by omega) fun _ =>
      compare_cons_lt (by omega) (by omega) (by omega)
  · exact compare_cons_lt (by omega) (by omega) (by omega)
  · exact compare_cons_lt (by omega) (by omega) fun _ => compare_cons_lt (by omega) (by omega) fun _ =>
      compare_cons_lt (by omega) (by omega) fun _ => compare_cons_lt (by omega) (by omega) (by omega)

theorem compare_append_left {α : Type} [Ord α] [Std.ReflOrd α] (p s t : List α) :
    compare (p ++ s) (p ++ t) = compare s t := by
  induction p with
  | nil => rfl
  | cons a p ih =>
    rw [List.cons_append, List.cons_append, compare_cons_cons, Std.compare_self, ih]
    rfl

/-- The order of bytes is the order of code points. -/
theorem compare_flatMap_encode {cs ds : List Nat} (lower : ∀ c ∈ cs, c < 0x110000)
    (upper : ∀ d ∈ ds, d < 0x110000) :
    compare (cs.flatMap encode) (ds.flatMap encode) = compare cs ds := by
  induction cs generalizing ds with
  | nil =>
    cases ds with
    | nil => rfl
    | cons d ds =>
      rw [List.flatMap_cons]
      cases spelled : encode d with
      | nil => exact (encode_ne_nil d spelled).elim
      | cons _ _ => rfl
  | cons c cs ih =>
    obtain ⟨boundC, left⟩ := List.forall_mem_cons.mp lower
    cases ds with
    | nil =>
      rw [List.flatMap_cons]
      cases spelled : encode c with
      | nil => exact (encode_ne_nil c spelled).elim
      | cons _ _ => rfl
    | cons d ds =>
      obtain ⟨boundD, right⟩ := List.forall_mem_cons.mp upper
      rw [List.flatMap_cons, List.flatMap_cons, compare_cons_cons]
      rcases Nat.lt_trichotomy c d with less | rfl | more
      · rw [compare_encode_lt less boundD, Std.compare_eq_lt.mpr less]
        rfl
      · rw [compare_append_left, ih left right, Std.compare_self]
        rfl
      · have swapped : compare (encode c ++ cs.flatMap encode) (encode d ++ ds.flatMap encode) = _ :=
          Std.OrientedCmp.eq_swap
        rw [swapped, compare_encode_lt more boundC, Std.compare_eq_gt.mpr more]
        rfl

theorem flatMap_encode_injective {cs ds : List Nat} (left : ∀ c ∈ cs, c < 0x110000) (right : ∀ d ∈ ds, d < 0x110000)
    (same : cs.flatMap encode = ds.flatMap encode) : cs = ds := by
  refine Std.LawfulEqOrd.eq_of_compare ?_
  rw [← compare_flatMap_encode left right, same]
  exact Std.compare_self

theorem slash_mem_flatMap_encode {cs : List Nat} (bound : ∀ c ∈ cs, c < 0x110000) {b : UInt8}
    (small : b.toNat < 0x80)
    (member : b ∈ cs.flatMap encode) : b.toNat ∈ cs := by
  obtain ⟨c, inside, spelled⟩ := List.mem_flatMap.mp member
  by_cases ascii : c < 0x80
  · rw [encode_ascii ascii, List.mem_singleton] at spelled
    rw [spelled, toNat_ofNat_lt (by omega)]
    exact inside
  · have high := high_of_mem_encode (by omega) (bound c inside) spelled
    omega

end Utf8

end Machteld
