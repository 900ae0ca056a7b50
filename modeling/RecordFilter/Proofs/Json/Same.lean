import RecordFilter.Proofs.Json.Nan
import RecordFilter.Proofs.Number.Line

/-!
# Equality of documents

Documents that are equal have one structure and equal numbers at the same places. The equality is
symmetric (`same_comm`) and transitive (`same_trans`), and a document is equal to itself if no
number of it is NaN (`same_self_iff`).
-/

namespace RecordFilter.Json

open RecordFilter.Number

/-! ## Numbers -/

theorem Number.same_self_iff (n : Number) : n.same n = true ↔ n.NotNan := by
  cases n with
  | integer n => exact iff_of_true (beq_self_eq_true n) trivial
  | float x =>
    rw [Number.same, Binary.same_iff, Number.NotNan, ne_eq, ← Binary.position?_eq_none_iff,
      Option.eq_none_iff_forall_ne_some]
    simp

theorem Number.same_comm (m n : Number) : m.same n = n.same m := by
  cases m with
  | integer m =>
    cases n with
    | integer n => exact Bool.beq_comm
    | float y => rfl
  | float x =>
    cases n with
    | integer n => rfl
    | float y =>
      rw [Number.same, Number.same, Bool.eq_iff_iff, Binary.same_iff, Binary.same_iff]
      exact exists_congr fun _ => and_comm

theorem Number.same_trans {l m n : Number} (h : l.same m = true) (h' : m.same n = true) :
    l.same n = true := by
  cases l with
  | integer l =>
    cases m with
    | integer m =>
      obtain rfl := eq_of_beq h
      exact h'
    | float y => cases h
  | float x =>
    cases m with
    | integer m => cases h
    | float y =>
      cases n with
      | integer n => cases h'
      | float z =>
        obtain ⟨a, hx, hy⟩ := Binary.same_iff.1 h
        obtain ⟨b, hy', hz⟩ := Binary.same_iff.1 h'
        obtain rfl := Option.some.inj (hy.symm.trans hy')
        exact Binary.same_iff.2 ⟨a, hx, hz⟩

/-! ## Documents -/

mutual

/-- **A document is equal to itself, unless it has a number that is NaN.** -/
theorem same_self_iff : ∀ j : Json, j.same j = true ↔ j.NanFree
  | null => iff_of_true rfl trivial
  | bool b => iff_of_true (beq_self_eq_true b) trivial
  | number n => n.same_self_iff
  | string s => iff_of_true (beq_self_eq_true s) trivial
  | array items => sameItems_self_iff items
  | object members => sameMembers_self_iff members

theorem sameItems_self_iff : ∀ items : List Json, sameItems items items = true ↔ NanFreeItems items
  | [] => iff_of_true rfl trivial
  | j :: rest => by rw [sameItems, NanFreeItems, Bool.and_eq_true, same_self_iff j,
      sameItems_self_iff rest]

theorem sameMembers_self_iff : ∀ members : List (String × Json),
    sameMembers members members = true ↔ NanFreeMembers members
  | [] => iff_of_true rfl trivial
  | (name, j) :: rest => by rw [sameMembers, NanFreeMembers, beq_self_eq_true, Bool.true_and,
      Bool.and_eq_true, same_self_iff j, sameMembers_self_iff rest]

end

mutual

theorem same_comm : ∀ i j : Json, i.same j = j.same i
  | null, j => by cases j <;> rfl
  | bool a, j => by
    cases j with
    | bool b => exact Bool.beq_comm
    | _ => rfl
  | number m, j => by
    cases j with
    | number n => exact m.same_comm n
    | _ => rfl
  | string s, j => by
    cases j with
    | string t => exact Bool.beq_comm
    | _ => rfl
  | array as, j => by
    cases j with
    | array bs => exact sameItems_comm as bs
    | _ => rfl
  | object as, j => by
    cases j with
    | object bs => exact sameMembers_comm as bs
    | _ => rfl

theorem sameItems_comm : ∀ as bs : List Json, sameItems as bs = sameItems bs as
  | [], [] => rfl
  | [], _ :: _ => rfl
  | _ :: _, [] => rfl
  | a :: as, b :: bs => by rw [sameItems, sameItems, same_comm a b, sameItems_comm as bs]

theorem sameMembers_comm : ∀ as bs : List (String × Json), sameMembers as bs = sameMembers bs as
  | [], [] => rfl
  | [], _ :: _ => rfl
  | _ :: _, [] => rfl
  | (m, a) :: as, (n, b) :: bs => by
    rw [sameMembers, sameMembers, same_comm a b, sameMembers_comm as bs, Bool.beq_comm]

end

mutual

/-- **Equality of documents is transitive.** -/
theorem same_trans : ∀ i j k : Json, i.same j = true → j.same k = true → i.same k = true
  | null, j, _, h, h' => by
    cases j with
    | null => exact h'
    | _ => cases h
  | bool a, j, _, h, h' => by
    cases j with
    | bool b =>
      obtain rfl := eq_of_beq h
      exact h'
    | _ => cases h
  | number l, j, k, h, h' => by
    cases j with
    | number m =>
      cases k with
      | number n => exact Number.same_trans h h'
      | _ => cases h'
    | _ => cases h
  | string s, j, _, h, h' => by
    cases j with
    | string t =>
      obtain rfl := eq_of_beq h
      exact h'
    | _ => cases h
  | array as, j, k, h, h' => by
    cases j with
    | array bs =>
      cases k with
      | array cs => exact sameItems_trans as bs cs h h'
      | _ => cases h'
    | _ => cases h
  | object as, j, k, h, h' => by
    cases j with
    | object bs =>
      cases k with
      | object cs => exact sameMembers_trans as bs cs h h'
      | _ => cases h'
    | _ => cases h

theorem sameItems_trans : ∀ as bs cs : List Json, sameItems as bs = true →
    sameItems bs cs = true → sameItems as cs = true
  | [], [], _, _, h' => h'
  | a :: as, b :: bs, c :: cs, h, h' => by
    rw [sameItems, Bool.and_eq_true] at h h' ⊢
    exact ⟨same_trans a b c h.1 h'.1, sameItems_trans as bs cs h.2 h'.2⟩

theorem sameMembers_trans : ∀ as bs cs : List (String × Json), sameMembers as bs = true →
    sameMembers bs cs = true → sameMembers as cs = true
  | [], [], _, _, h' => h'
  | (l, a) :: as, (m, b) :: bs, (n, c) :: cs, h, h' => by
    simp only [sameMembers, Bool.and_eq_true, beq_iff_eq] at h h' ⊢
    exact ⟨⟨h.1.1.trans h'.1.1, same_trans a b c h.1.2 h'.1.2⟩,
      sameMembers_trans as bs cs h.2 h'.2⟩

end

end RecordFilter.Json
