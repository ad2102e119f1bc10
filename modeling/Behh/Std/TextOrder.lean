import Behh.Std.TimeText

/-!
# The order of texts

Texts are compared character by character, as `std::string` does. Numbers written with a fixed
number of digits come in the order of their values. In a text made along a format, the first field
that differs decides.

## Main definitions

* `EarlierFields`: the order of times by the fields of a format.

## Main results

* `padded_lt_padded`: numbers of a fixed width are ordered by their values.
* `flatMap_text_lt`: earlier times have smaller texts.
-/

namespace Behh

/-- Texts of equal lengths decide whatever stands behind them. -/
theorem append_lt_append {s s' : Bytes} (hlength : s.length = s'.length) (h : s < s')
    (rest rest' : Bytes) : s ++ rest < s' ++ rest' := by
  induction s generalizing s' with
  | nil =>
    rw [List.length_eq_zero_iff.1 hlength.symm] at h
    exact absurd h (List.not_lt_nil _)
  | cons c cs ih =>
    cases s' with
    | nil => exact absurd h (List.not_lt_nil _)
    | cons c' cs' =>
      rw [List.cons_append, List.cons_append, List.cons_lt_cons_iff]
      rcases List.cons_lt_cons_iff.1 h with hlt | ⟨heq, hlt⟩
      · exact Or.inl hlt
      · exact Or.inr ⟨heq, ih (Nat.succ.inj hlength) hlt⟩

/-- Texts of digits of equal lengths are ordered by their values. -/
theorem lt_of_decimal_lt {s s' : Bytes} (hlength : s.length = s'.length)
    (hs : s.all isdigit = true) (hs' : s'.all isdigit = true) (h : decimal s < decimal s') :
    s < s' := by
  induction s generalizing s' with
  | nil =>
    rw [List.length_eq_zero_iff.1 hlength.symm] at h
    exact absurd h (Nat.lt_irrefl _)
  | cons c cs ih =>
    cases s' with
    | nil => cases hlength
    | cons c' cs' =>
      have hlen : cs.length = cs'.length := Nat.succ.inj hlength
      have hcut := decimal_append [c] cs
      have hcut' := decimal_append [c'] cs'
      rw [List.all_cons, Bool.and_eq_true] at hs hs'
      have hcs := decimal_lt hs.2
      have hcs' := decimal_lt hs'.2
      rw [List.singleton_append] at hcut hcut'
      rw [hlen] at hcut hcs
      rw [hcut, hcut'] at h
      rw [List.cons_lt_cons_iff]
      have hvalue : ∀ d : UInt8, decimal [d] = d.toNat - 0x30 := fun d => Nat.zero_add _
      rcases Nat.lt_trichotomy c.toNat c'.toNat with hlt | heq | hgt
      · exact Or.inl (UInt8.lt_iff_toNat_lt.2 hlt)
      · obtain rfl : c = c' := UInt8.toNat_inj.1 heq
        exact Or.inr ⟨rfl, ih hlen hs.2 hs'.2 (by omega)⟩
      · have hdigit : 0x30 ≤ c'.toNat := by
          have hrange := hs'.1
          rw [isdigit, Bool.and_eq_true, decide_eq_true_eq, UInt8.le_iff_toNat_le] at hrange
          exact hrange.1
        have hstep : decimal [c'] + 1 ≤ decimal [c] := by
          rw [hvalue, hvalue]
          omega
        have hmul := Nat.mul_le_mul_left (10 ^ cs'.length) hstep
        rw [Nat.mul_add, Nat.mul_one] at hmul
        omega

/-- Numbers of a fixed width are ordered by their values. -/
theorem padded_lt_padded {width m n : ℕ} (hwidth : 0 < width) (hn : n < 10 ^ width) (h : m < n) :
    padded width m < padded width n := by
  have hlength := length_padded hwidth (Nat.lt_trans h hn)
  have hlength' := length_padded hwidth hn
  refine lt_of_decimal_lt (hlength.trans hlength'.symm) (all_isdigit_padded _ _)
    (all_isdigit_padded _ _) ?_
  rwa [decimal_padded, decimal_padded]

/-! ### Times -/

theorem Field.text_congr {tm tm' : Tm} {f : Field} (h : f.get tm = f.get tm') :
    f.text tm = f.text tm' := by rw [text, text, h]

theorem Field.text_lt {tm tm' : Tm} {f : Field} (h : f.Readable tm) (h' : f.Readable tm')
    (hlt : f.get tm < f.get tm') : f.text tm < f.text tm' := by
  have hlimits := f.limits_spec
  have hlow := h.1
  have hhigh := h'.2.1
  rw [text_eq_padded h, text_eq_padded h']
  exact padded_lt_padded hlimits.1 (by omega) (by omega)

/-- Along the fields of a format, the first one that differs is smaller. -/
def EarlierFields (tm tm' : Tm) : List Directive → Prop
  | [] => False
  | .field f :: ds => f.get tm < f.get tm' ∨ f.get tm = f.get tm' ∧ EarlierFields tm tm' ds
  | .literal _ :: ds => EarlierFields tm tm' ds

/-- **Earlier times have smaller texts**, whatever stands behind them. -/
theorem flatMap_text_lt {tm tm' : Tm} {ds : List Directive}
    (hread : ∀ f, Directive.field f ∈ ds → f.Readable tm ∧ f.Readable tm')
    (h : EarlierFields tm tm' ds) (rest rest' : Bytes) :
    ds.flatMap (Directive.text tm) ++ rest < ds.flatMap (Directive.text tm') ++ rest' := by
  induction ds with
  | nil => exact h.elim
  | cons d ds ih =>
    have ih' := ih fun f hf => hread f (List.mem_cons_of_mem _ hf)
    simp only [List.flatMap_cons, List.append_assoc]
    cases d with
    | literal c => exact List.append_left_lt (ih' h)
    | field f =>
      obtain ⟨hf, hf'⟩ := hread f (List.mem_cons_self ..)
      rcases h with hlt | ⟨heq, hlt⟩
      · have hlength : (f.text tm).length = (f.text tm').length :=
          (Field.length_text hf).trans (Field.length_text hf').symm
        exact append_lt_append hlength (Field.text_lt hf hf' hlt) _ _
      · simp only [Directive.text, Field.text_congr heq]
        exact List.append_left_lt (ih' hlt)

end Behh
