import Mathlib.Data.List.Perm.Subperm
import Mathlib.Data.List.Nodup
import Mathlib.Data.Nat.Notation
import Mathlib.Tactic.Common

/-!
# Connection strings of keywords and values

The grammar in which client libraries of databases take their parameters: `keyword = value`, with
blanks between the settings and around the equals sign. A value ends at a blank, unless it begins
with a quote, and a backslash makes the next character a part of the value. A keyword that is given
again is overridden.

A value that is written without quotes and escapes is read back when there is nothing in it that
the grammar treats in a special way. The converse is a matter of lengths: reading uses at least a
character for each one that it yields, one for each equals sign and one between two settings, so
that a text as short as the plain one can yield the values only if it was read without loss.

## Main definitions

* `KeywordValue.parse`: the settings of a text, in order.
* `KeywordValue.lastValue`: the value of a keyword, after overriding.
* `KeywordValue.text`: settings written without quotes and escapes.
* `KeywordValue.Plain`: a value without anything special.

## Main results

* `KeywordValue.cost_le`: what reading uses.
* `KeywordValue.parse_text`: plain values are read back.
* `KeywordValue.plain_of_parse_text`: only plain values are.
* `KeywordValue.perm_of_lastValue`: a text as short as the plain one yields nothing else.
-/

namespace KeywordValue

/-- `isspace`. -/
def isSpace (c : UInt8) : Bool := c = 0x20 || (0x09 ≤ c && c ≤ 0x0d)

/-- A character of a keyword. -/
def isName (c : UInt8) : Bool := c ≠ 0x3d && !isSpace c

/-- A keyword and its value. -/
abbrev Setting : Type := List UInt8 × List UInt8

/-- Reading a value without a quote, after a backslash or not: the value, and the text behind it
and the blank that ends it. -/
def bareValue : Bool → List UInt8 → List UInt8 × List UInt8
  | _, [] => ([], [])
  | true, c :: s => (c :: (bareValue false s).1, (bareValue false s).2)
  | false, c :: s =>
    if isSpace c then ([], s)
    else if c = 0x5c then bareValue true s
    else (c :: (bareValue false s).1, (bareValue false s).2)

/-- Reading a value behind its quote, after a backslash or not. Without a closing quote this is an
error. -/
def quotedValue : Bool → List UInt8 → Option (List UInt8 × List UInt8)
  | _, [] => none
  | true, c :: s => (quotedValue false s).map fun r => (c :: r.1, r.2)
  | false, c :: s =>
    if c = 0x27 then some ([], s)
    else if c = 0x5c then quotedValue true s
    else (quotedValue false s).map fun r => (c :: r.1, r.2)

/-- Reading a value. -/
def value : List UInt8 → Option (List UInt8 × List UInt8)
  | 0x27 :: s => quotedValue false s
  | s => some (bareValue false s)

/-- Reading a setting, behind the blanks in front of it. Without an equals sign this is an error. -/
def setting (s : List UInt8) : Option (Setting × List UInt8) :=
  match (s.dropWhile isName).dropWhile isSpace with
  | 0x3d :: rest =>
    (value (rest.dropWhile isSpace)).map fun r => ((s.takeWhile isName, r.1), r.2)
  | _ => none

/-! ### What reading uses -/

variable {s v rest : List UInt8} {e : Bool} {x : Setting} {l fields : List Setting}

/-- The blank between a text and what is in front of it. -/
def gap (s : List UInt8) : ℕ := if s = [] then 0 else 1

@[simp] theorem gap_nil : gap [] = 0 := rfl

@[simp] theorem gap_cons (c : UInt8) (s : List UInt8) : gap (c :: s) = 1 := rfl

theorem gap_le_one (s : List UInt8) : gap s ≤ 1 := by
  rw [gap]
  split_ifs <;> decide

theorem length_bareValue_le (e : Bool) (s : List UInt8) :
    (bareValue e s).1.length + (bareValue e s).2.length + gap (bareValue e s).2 ≤ s.length := by
  induction s generalizing e with
  | nil => cases e <;> exact Nat.le_refl 0
  | cons c s ih =>
    have hfalse := ih false
    have htrue := ih true
    have hgap := gap_le_one s
    cases e with
    | true =>
      simp only [bareValue, List.length_cons]
      omega
    | false =>
      rw [bareValue]
      split_ifs <;> simp only [List.length_cons, List.length_nil] <;> omega

theorem length_quotedValue_le (h : quotedValue e s = some (v, rest)) :
    v.length + rest.length + 1 ≤ s.length := by
  induction s generalizing e v with
  | nil => cases e <;> cases h
  | cons c s ih =>
    have hcons : ∀ {e'}, (quotedValue e' s).map (fun r => (c :: r.1, r.2)) = some (v, rest) →
        v.length + rest.length + 1 ≤ (c :: s).length := by
      intro e' hmap
      obtain ⟨⟨v', rest'⟩, hv, heq⟩ := Option.map_eq_some_iff.1 hmap
      obtain ⟨rfl, rfl⟩ : c :: v' = v ∧ rest' = rest := Prod.mk.inj heq
      have hle := ih hv
      simp only [List.length_cons]
      omega
    cases e with
    | true => exact hcons h
    | false =>
      rw [quotedValue] at h
      split_ifs at h with hquote hescape
      · obtain ⟨rfl, rfl⟩ := Prod.mk.inj (Option.some_inj.1 h)
        simp
      · have hle := ih h
        rw [List.length_cons]
        omega
      · exact hcons h

/-- A value uses a character for each one of it, and one more if there is a text behind it. -/
theorem length_value_le (h : value s = some (v, rest)) :
    v.length + rest.length + gap rest ≤ s.length := by
  rw [value.eq_def] at h
  split at h
  · have hle := length_quotedValue_le h
    have hgap := gap_le_one rest
    rw [List.length_cons]
    omega
  · obtain ⟨rfl, rfl⟩ := Prod.mk.inj (Option.some_inj.1 h)
    exact length_bareValue_le false s

theorem length_takeWhile_add (p : UInt8 → Bool) (s : List UInt8) :
    (s.takeWhile p).length + (s.dropWhile p).length = s.length := by
  rw [← List.length_append, List.takeWhile_append_dropWhile]

theorem length_dropWhile_le (p : UInt8 → Bool) (s : List UInt8) :
    (s.dropWhile p).length ≤ s.length := (List.dropWhile_suffix p).length_le

theorem setting_eq_some_iff {n : List UInt8} : setting s = some ((n, v), rest) ↔
    n = s.takeWhile isName ∧ ∃ t, (s.dropWhile isName).dropWhile isSpace = 0x3d :: t ∧
      value (t.dropWhile isSpace) = some (v, rest) := by
  rw [setting]
  split
  · rename_i t ht
    rw [ht]
    constructor
    · intro h
      obtain ⟨⟨v', rest'⟩, hv, heq⟩ := Option.map_eq_some_iff.1 h
      obtain ⟨hn, rfl⟩ := Prod.mk.inj heq
      obtain ⟨rfl, rfl⟩ := Prod.mk.inj hn
      exact ⟨rfl, t, rfl, hv⟩
    · rintro ⟨rfl, t', ht', hv⟩
      obtain rfl := (List.cons.inj ht').2
      rw [hv]
      rfl
  · rename_i hne
    refine iff_of_false (by simp) ?_
    rintro ⟨-, t, ht, -⟩
    exact hne t ht

theorem length_setting_le (h : setting s = some (x, rest)) :
    x.1.length + 1 + x.2.length + rest.length + gap rest ≤ s.length := by
  obtain ⟨n, v⟩ := x
  obtain ⟨rfl, t, ht, hv⟩ := setting_eq_some_iff.1 h
  have hvalue := length_value_le hv
  have htake := length_takeWhile_add isName s
  have hname := length_dropWhile_le isSpace (s.dropWhile isName)
  have hblank := length_dropWhile_le isSpace t
  rw [ht, List.length_cons] at hname
  simp only
  omega

/-! ### Reading a text -/

/-- The settings of a text. -/
def parse (s : List UInt8) : Option (List Setting) :=
  if s.dropWhile isSpace = [] then some []
  else
    match _h : setting (s.dropWhile isSpace) with
    | none => none
    | some (x, rest) => (parse rest).map (x :: ·)
termination_by s.length
decreasing_by
  have := length_setting_le _h
  have := length_dropWhile_le isSpace s
  omega

theorem parse_nil : parse [] = some [] := by
  rw [parse, if_pos List.dropWhile_nil]

theorem parse_eq_some_iff (hs : s.dropWhile isSpace ≠ []) : parse s = some l ↔
    ∃ x rest l', setting (s.dropWhile isSpace) = some (x, rest) ∧ parse rest = some l' ∧
      l = x :: l' := by
  rw [parse, if_neg hs]
  split
  · rename_i hnone
    simp [hnone]
  · rename_i x rest hsome
    rw [hsome, Option.map_eq_some_iff]
    constructor
    · rintro ⟨l', hl', rfl⟩
      exact ⟨x, rest, l', rfl, hl', rfl⟩
    · rintro ⟨x', rest', l', heq, hl', rfl⟩
      obtain ⟨rfl, rfl⟩ := Prod.mk.inj (Option.some_inj.1 heq)
      exact ⟨l', hl', rfl⟩

/-- What writing or reading settings uses, with a character between two settings and one at the
end. -/
def cost : List Setting → ℕ
  | [] => 0
  | x :: l => x.1.length + x.2.length + 2 + cost l

@[simp] theorem cost_nil : cost [] = 0 := rfl

@[simp] theorem cost_cons (x : Setting) (l : List Setting) :
    cost (x :: l) = x.1.length + x.2.length + 2 + cost l := rfl

theorem cost_append (l fields : List Setting) : cost (l ++ fields) = cost l + cost fields := by
  induction l with
  | nil => simp
  | cons x l ih =>
    rw [List.cons_append, cost_cons, cost_cons, ih]
    omega

/-- Reading uses as much as the settings take at least. -/
theorem cost_le (h : parse s = some l) : cost l ≤ s.length + gap s := by
  induction hn : s.length using Nat.strongRecOn generalizing s l with
  | ind k ih =>
    subst hn
    by_cases hs : s.dropWhile isSpace = []
    · rw [parse, if_pos hs, Option.some_inj] at h
      rw [← h]
      exact Nat.zero_le _
    · obtain ⟨x, rest, l', hx, hl', rfl⟩ := (parse_eq_some_iff hs).1 h
      have hsetting := length_setting_le hx
      have hblank := length_dropWhile_le isSpace s
      have hrest := ih rest.length (by omega) hl' rfl
      have hgap : gap s = 1 := by
        rw [gap, if_neg]
        rintro rfl
        exact hs List.dropWhile_nil
      rw [cost_cons]
      omega

/-! ### Writing -/

/-- Settings written without quotes and escapes. -/
def text : List Setting → List UInt8
  | [] => []
  | [x] => x.1 ++ 0x3d :: x.2
  | x :: y :: l => x.1 ++ 0x3d :: (x.2 ++ 0x20 :: text (y :: l))

theorem text_ne_nil (x : Setting) (l : List Setting) : text (x :: l) ≠ [] := by
  cases l <;> simp [text]

theorem exists_text_cons (x : Setting) (l : List Setting) :
    ∃ t, text (x :: l) = x.1 ++ 0x3d :: t ∧ (l ≠ [] → t = x.2 ++ 0x20 :: text l) := by
  cases l with
  | nil => exact ⟨x.2, rfl, fun hne => absurd rfl hne⟩
  | cons y l => exact ⟨_, rfl, fun _ => rfl⟩

theorem gap_text_cons (x : Setting) (l : List Setting) : gap (text (x :: l)) = 1 :=
  if_neg (text_ne_nil x l)

theorem length_text (fields : List Setting) :
    (text fields).length + gap (text fields) = cost fields := by
  induction fields with
  | nil => rfl
  | cons x fields ih =>
    rw [gap_text_cons, cost_cons]
    cases fields with
    | nil =>
      simp only [text, List.length_append, List.length_cons, cost_nil]
      omega
    | cons y fields =>
      rw [gap_text_cons] at ih
      simp only [text, List.length_append, List.length_cons]
      omega

/-- A value without blanks and backslashes, and without a quote in front. -/
structure Plain (v : List UInt8) : Prop where
  not_space : ∀ c ∈ v, isSpace c = false
  not_escape : 0x5c ∉ v
  head_ne : v.head? ≠ some 0x27

/-! ### Reading plain values -/

theorem takeWhile_isName {n : List UInt8} (hn : ∀ c ∈ n, isName c = true) (s : List UInt8) :
    (n ++ 0x3d :: s).takeWhile isName = n ∧ (n ++ 0x3d :: s).dropWhile isName = 0x3d :: s := by
  have hstop : isName 0x3d = false := by decide
  rw [List.takeWhile_append_of_pos hn, List.dropWhile_append_of_pos hn,
    List.takeWhile_cons_of_neg (by simp [hstop]), List.dropWhile_cons_of_neg (by simp [hstop]),
    List.append_nil]
  exact ⟨rfl, rfl⟩

theorem isSpace_eq_false_of_isName {c : UInt8} (h : isName c = true) : isSpace c = false := by
  rw [isName, Bool.and_eq_true] at h
  simpa using h.2

theorem dropWhile_isSpace_setting {n : List UInt8} (hn : ∀ c ∈ n, isName c = true)
    (s : List UInt8) : (n ++ 0x3d :: s).dropWhile isSpace = n ++ 0x3d :: s := by
  cases n with
  | nil => exact List.dropWhile_cons_of_neg (by decide)
  | cons c n =>
    refine List.dropWhile_cons_of_neg ?_
    simp [isSpace_eq_false_of_isName (hn c List.mem_cons_self)]

theorem bareValue_of_plain (hspace : ∀ c ∈ v, isSpace c = false) (hescape : 0x5c ∉ v) :
    bareValue false v = (v, []) ∧
      ∀ {c}, isSpace c = true → ∀ rest, bareValue false (v ++ c :: rest) = (v, rest) := by
  induction v with
  | nil =>
    refine ⟨rfl, fun hc rest => ?_⟩
    rw [List.nil_append, bareValue, if_pos hc]
  | cons d v ih =>
    rw [List.forall_mem_cons] at hspace
    rw [List.mem_cons, not_or] at hescape
    obtain ⟨hend, hblank⟩ := ih hspace.2 hescape.2
    have hd : ¬ d = 0x5c := fun h => hescape.1 h.symm
    constructor
    · rw [bareValue, if_neg (by simp [hspace.1]), if_neg hd, hend]
    · intro c hc rest
      rw [List.cons_append, bareValue, if_neg (by simp [hspace.1]), if_neg hd, hblank hc]

theorem value_of_head_ne (h : s.head? ≠ some 0x27) : value s = some (bareValue false s) := by
  rw [value.eq_def]
  split
  · exact absurd rfl h
  · rfl

theorem dropWhile_isSpace_of_plain (hspace : ∀ c ∈ v, isSpace c = false) (hv : v ≠ [])
    (s : List UInt8) : (v ++ s).dropWhile isSpace = v ++ s := by
  cases v with
  | nil => exact absurd rfl hv
  | cons c v => exact List.dropWhile_cons_of_neg (by simp [hspace c List.mem_cons_self])

theorem setting_last {n : List UInt8} (hn : ∀ c ∈ n, isName c = true) (hv : Plain v) :
    setting (n ++ 0x3d :: v) = some ((n, v), []) := by
  obtain ⟨htake, hdrop⟩ := takeWhile_isName hn v
  refine setting_eq_some_iff.2 ⟨htake.symm, v, ?_, ?_⟩
  · rw [hdrop]
    exact List.dropWhile_cons_of_neg (by decide)
  · have hblank : v.dropWhile isSpace = v := by
      by_cases hne : v = []
      · rw [hne, List.dropWhile_nil]
      · have hall := dropWhile_isSpace_of_plain hv.not_space hne []
        rwa [List.append_nil] at hall
    rw [hblank, value_of_head_ne hv.head_ne, (bareValue_of_plain hv.not_space hv.not_escape).1]

/-- A plain value in front of a blank. An empty one would be read past the blank. -/
theorem setting_blank {n : List UInt8} (hn : ∀ c ∈ n, isName c = true) (hv : Plain v)
    (hne : v ≠ []) (rest : List UInt8) :
    setting (n ++ 0x3d :: (v ++ 0x20 :: rest)) = some ((n, v), rest) := by
  obtain ⟨htake, hdrop⟩ := takeWhile_isName hn (v ++ 0x20 :: rest)
  refine setting_eq_some_iff.2 ⟨htake.symm, v ++ 0x20 :: rest, ?_, ?_⟩
  · rw [hdrop]
    exact List.dropWhile_cons_of_neg (by decide)
  · have hhead : (v ++ 0x20 :: rest).head? ≠ some 0x27 := by
      rw [List.head?_append_of_ne_nil _ hne]
      exact hv.head_ne
    rw [dropWhile_isSpace_of_plain hv.not_space hne, value_of_head_ne hhead,
      (bareValue_of_plain hv.not_space hv.not_escape).2 (by decide)]

/-- Keywords that consist of characters of keywords, none of them twice. -/
structure Keywords (fields : List Setting) : Prop where
  nodup : (fields.map Prod.fst).Nodup
  isName : ∀ x ∈ fields, ∀ c ∈ x.1, isName c = true

theorem Keywords.tail (h : Keywords (x :: fields)) : Keywords fields where
  nodup := (List.nodup_cons.1 (by simpa using h.nodup)).2
  isName y hy := h.isName y (List.mem_cons_of_mem x hy)

/-- **Plain values are read back.** Only the last of them may be empty. -/
theorem parse_text (hkeys : Keywords fields) (hplain : ∀ x ∈ fields, Plain x.2)
    (hne : ∀ x ∈ fields.dropLast, x.2 ≠ []) : parse (text fields) = some fields := by
  induction fields with
  | nil => exact parse_nil
  | cons x fields ih =>
    have hn := hkeys.isName x List.mem_cons_self
    have hx := hplain x List.mem_cons_self
    cases fields with
    | nil =>
      have hblank := dropWhile_isSpace_setting hn x.2
      rw [text, parse_eq_some_iff (by rw [hblank]; exact text_ne_nil x []), hblank]
      exact ⟨x, [], [], setting_last hn hx, parse_nil, rfl⟩
    | cons y fields =>
      have hblank := dropWhile_isSpace_setting hn (x.2 ++ 0x20 :: text (y :: fields))
      rw [List.dropLast_cons_cons, List.forall_mem_cons] at hne
      rw [text, parse_eq_some_iff (by rw [hblank]; exact text_ne_nil x (y :: fields)), hblank]
      exact ⟨x, _, _, setting_blank hn hx hne.1 _,
        ih hkeys.tail (fun z hz => hplain z (List.mem_cons_of_mem x hz)) hne.2, rfl⟩

/-! ### Reading without loss -/

/-- A value that uses no more than its characters is what stands there, and without anything
special. -/
theorem bareValue_tight (h : bareValue false s = (v, rest))
    (hlen : v.length + rest.length + gap rest = s.length) :
    ((∀ c ∈ v, isSpace c = false) ∧ 0x5c ∉ v) ∧
      ((rest = [] ∧ s = v) ∨ ∃ c, isSpace c = true ∧ rest ≠ [] ∧ s = v ++ c :: rest) := by
  induction s generalizing v with
  | nil =>
    obtain ⟨rfl, rfl⟩ := Prod.mk.inj h
    exact ⟨⟨fun c hc => (by cases hc), List.not_mem_nil⟩, Or.inl ⟨rfl, rfl⟩⟩
  | cons c s ih =>
    rw [bareValue] at h
    rw [List.length_cons] at hlen
    split_ifs at h with hspace hescape
    · obtain ⟨rfl, rfl⟩ := Prod.mk.inj h
      refine ⟨⟨fun c hc => (by cases hc), List.not_mem_nil⟩, Or.inr ⟨c, hspace, ?_, rfl⟩⟩
      rintro rfl
      simp at hlen
    · have hle := length_bareValue_le true s
      rw [h] at hle
      simp only at hle
      omega
    · obtain ⟨rfl, rfl⟩ : c :: (bareValue false s).1 = v ∧ (bareValue false s).2 = rest :=
        Prod.mk.inj h
      rw [List.length_cons] at hlen
      obtain ⟨⟨hspaces, hescapes⟩, hends⟩ := ih rfl (by omega)
      refine ⟨⟨List.forall_mem_cons.2 ⟨by simpa using hspace, hspaces⟩, ?_⟩, ?_⟩
      · rw [List.mem_cons, not_or]
        exact ⟨fun hc => hescape hc.symm, hescapes⟩
      · rcases hends with ⟨hrest, hs⟩ | ⟨d, hd, hrest, hs⟩
        · exact Or.inl ⟨hrest, congrArg (c :: ·) hs⟩
        · exact Or.inr ⟨d, hd, hrest, congrArg (c :: ·) hs⟩

theorem value_tight (h : value s = some (v, rest))
    (hlen : v.length + rest.length + gap rest = s.length) :
    Plain v ∧ ((rest = [] ∧ s = v) ∨ ∃ c, isSpace c = true ∧ rest ≠ [] ∧ s = v ++ c :: rest) := by
  rw [value.eq_def] at h
  split at h
  · have hle := length_quotedValue_le h
    have hgap := gap_le_one rest
    rw [List.length_cons] at hlen
    omega
  · rename_i hquote
    obtain ⟨⟨hspace, hescape⟩, hends⟩ := bareValue_tight (Option.some_inj.1 h) hlen
    refine ⟨⟨hspace, hescape, fun hhead => ?_⟩, hends⟩
    obtain ⟨v', rfl⟩ := List.head?_eq_some_iff.1 hhead
    rcases hends with ⟨-, hs⟩ | ⟨c, -, -, hs⟩
    · exact hquote _ hs
    · exact hquote _ hs

/-- A setting that uses no more than its characters. The value is empty at the end only, since
blanks in front of a value are skipped. -/
theorem setting_tight (h : setting s = some (x, rest))
    (hlen : x.1.length + 1 + x.2.length + rest.length + gap rest = s.length) :
    Plain x.2 ∧ ((rest = [] ∧ s = x.1 ++ 0x3d :: x.2) ∨
      ∃ c, x.2 ≠ [] ∧ rest ≠ [] ∧ s = x.1 ++ 0x3d :: (x.2 ++ c :: rest)) := by
  obtain ⟨n, v⟩ := x
  obtain ⟨rfl, t, ht, hv⟩ := setting_eq_some_iff.1 h
  have hvalue := length_value_le hv
  have htake := length_takeWhile_add isName s
  have hname := length_dropWhile_le isSpace (s.dropWhile isName)
  have hblank := length_dropWhile_le isSpace t
  have htlen := congrArg List.length ht
  rw [List.length_cons] at htlen
  simp only at hlen
  have hname' : (s.dropWhile isName).dropWhile isSpace = s.dropWhile isName :=
    (List.dropWhile_suffix isSpace).eq_of_length (by omega)
  have hblank' : t.dropWhile isSpace = t :=
    (List.dropWhile_suffix isSpace).eq_of_length (by omega)
  have hs : s = s.takeWhile isName ++ 0x3d :: t := by
    rw [← ht, hname', List.takeWhile_append_dropWhile]
  obtain ⟨hplain, hends⟩ := value_tight hv (by omega)
  rw [hblank'] at hends
  refine ⟨hplain, ?_⟩
  rcases hends with ⟨hrest, rfl⟩ | ⟨c, hc, hrest, rfl⟩
  · exact Or.inl ⟨hrest, hs⟩
  · refine Or.inr ⟨c, ?_, hrest, hs⟩
    rintro rfl
    rw [List.nil_append, List.dropWhile_cons_of_pos hc] at hblank'
    have hle := length_dropWhile_le isSpace rest
    rw [hblank', List.length_cons] at hle
    omega

theorem cost_perm (h : l.Perm fields) : cost l = cost fields := by
  induction h with
  | nil => rfl
  | cons x _ ih => rw [cost_cons, cost_cons, ih]
  | swap x y l =>
    simp only [cost_cons]
    omega
  | trans _ _ ih₁ ih₂ => exact ih₁.trans ih₂

/-- A keyword has one value among different keywords. -/
theorem Keywords.eq_of_mem (h : Keywords fields) {y : Setting} (hx : x ∈ fields) (hy : y ∈ fields)
    (hxy : x.1 = y.1) : x = y :=
  List.inj_on_of_nodup_map h.nodup hx hy hxy

/-- **Only plain values are read back**, and only the last of them may be empty. -/
theorem plain_of_parse_text (hkeys : Keywords fields) (h : parse (text fields) = some l)
    (hperm : l.Perm fields) :
    (∀ x ∈ fields, Plain x.2) ∧ ∀ x ∈ fields.dropLast, x.2 ≠ [] := by
  induction fields generalizing l with
  | nil => simp
  | cons x fields ih =>
    have hn := hkeys.isName x List.mem_cons_self
    obtain ⟨t, ht, hblank⟩ := exists_text_cons x fields
    have hcost := cost_perm hperm
    rw [← length_text (x :: fields), ht] at hcost
    rw [ht, parse_eq_some_iff (by rw [dropWhile_isSpace_setting hn]; simp),
      dropWhile_isSpace_setting hn] at h
    obtain ⟨y, rest, l', hy, hl', rfl⟩ := h
    -- The first setting that is read is the first one that was written.
    obtain rfl : y = x := by
      refine hkeys.eq_of_mem (hperm.subset List.mem_cons_self) List.mem_cons_self ?_
      obtain ⟨hname, -⟩ := setting_eq_some_iff.1 hy
      rw [hname, (takeWhile_isName hn t).1]
    have hrest := cost_le hl'
    have hsetting := length_setting_le hy
    have hgap : gap (y.1 ++ 0x3d :: t) = 1 := by
      rw [← ht]
      exact gap_text_cons y fields
    rw [cost_cons] at hcost
    obtain ⟨hplain, hends⟩ := setting_tight hy (by omega)
    by_cases hnil : fields = []
    · subst hnil
      simpa using hplain
    · have htext := hblank hnil
      rcases hends with ⟨-, hs⟩ | ⟨c, hne, -, hs⟩
      · have hlen := congrArg List.length hs
        rw [htext] at hlen
        simp at hlen
      · rw [htext] at hs
        have htail := List.append_cancel_left hs
        have hrest' := List.append_cancel_left (List.cons.inj htail).2
        rw [(List.cons.inj hrest').2] at ih
        obtain ⟨hplain', hne'⟩ := ih hkeys.tail hl' hperm.cons_inv
        rw [List.dropLast_cons_of_ne_nil hnil]
        exact ⟨List.forall_mem_cons.2 ⟨hplain, hplain'⟩, List.forall_mem_cons.2 ⟨hne, hne'⟩⟩

/-! ### Overriding -/

/-- The value of a keyword: the last one that is given. -/
def lastValue (l : List Setting) (k : List UInt8) : Option (List UInt8) := l.reverse.lookup k

theorem mem_of_lookup {k : List UInt8} (h : l.lookup k = some v) : (k, v) ∈ l := by
  induction l with
  | nil => cases h
  | cons x l ih =>
    rw [List.lookup_cons] at h
    split at h
    · rename_i hk
      obtain rfl := Option.some_inj.1 h
      rw [eq_of_beq hk]
      exact List.mem_cons_self
    · exact List.mem_cons_of_mem x (ih h)

theorem lookup_of_mem (hkeys : (l.map Prod.fst).Nodup) (hx : x ∈ l) :
    l.lookup x.1 = some x.2 := by
  induction l with
  | nil => cases hx
  | cons y l ih =>
    rw [List.map_cons, List.nodup_cons] at hkeys
    rw [List.lookup_cons]
    rcases List.mem_cons.1 hx with rfl | hx
    · rw [beq_self_eq_true]
    · have hne : ¬ x.1 = y.1 := fun heq => hkeys.1 (heq ▸ List.mem_map_of_mem hx)
      rw [beq_eq_false_iff_ne.2 hne]
      exact ih hkeys.2 hx

/-- Among different keywords nothing is overridden. -/
theorem lastValue_of_nodup (hkeys : (l.map Prod.fst).Nodup) (k : List UInt8) :
    lastValue l k = l.lookup k := by
  have hreverse : (l.reverse.map Prod.fst).Nodup := by
    rw [List.map_reverse]
    exact List.nodup_reverse.2 hkeys
  refine Option.ext fun v => ⟨fun h => ?_, fun h => ?_⟩
  · exact lookup_of_mem hkeys (List.mem_reverse.1 (mem_of_lookup h))
  · exact lookup_of_mem hreverse (List.mem_reverse.2 (mem_of_lookup h))

/-- A text that is not longer than the plain one and yields the settings yields nothing else, and
is as long as the plain one. -/
theorem perm_of_lastValue (hkeys : Keywords fields) (hfields : fields ≠ [])
    (hlen : s.length ≤ (text fields).length) (h : parse s = some l)
    (hl : ∀ k, lastValue l k = fields.lookup k) :
    l.Perm fields ∧ s.length = (text fields).length := by
  have hsub : fields ⊆ l := by
    intro x hx
    have hlast : lastValue l x.1 = some x.2 := by rw [hl, lookup_of_mem hkeys.nodup hx]
    exact List.mem_reverse.1 (mem_of_lookup hlast)
  obtain ⟨l', hperm, hsublist⟩ := hkeys.nodup.of_map.subperm hsub
  obtain ⟨extra, hsplit⟩ := hsublist.exists_perm_append
  have hextra : l.Perm (fields ++ extra) := hsplit.trans (hperm.append_right extra)
  have hcost := cost_perm hextra
  have hle := cost_le h
  have htext := length_text fields
  have hgap := gap_le_one s
  have happend := cost_append fields extra
  have hgap' : gap (text fields) = 1 := by
    obtain ⟨x, fields', rfl⟩ := List.exists_cons_of_ne_nil hfields
    exact gap_text_cons x fields'
  have hnil : extra = [] := by
    cases extra with
    | nil => rfl
    | cons y extra =>
      rw [cost_cons] at happend
      omega
  subst hnil
  rw [List.append_nil] at hextra
  rw [cost_nil] at happend
  exact ⟨hextra, by omega⟩

end KeywordValue
