import Behh.Library.Shell

/-!
# How much of a text a command holds

Reading makes no text longer: of every character the shell puts at most one into a word or into a
here-document, or ends a word with it. A text that arrives whole has therefore lost none of its
characters, and is verbatim.

## Main definitions

* `State.size`: how much has been put into words.
* `State.Begun`: a command has begun.
* `State.Grows`: what reading does while no command ends.

## Main results

* `step_cases`, `run_grows`: one character, and a text.
* `Separates.argument`: the arguments of a command in double quotes.
* `length_input_lt`: the length of a here-document.
* `doubleVerbatim_of_run`, `readFrom_body_iff`: what arrives whole in double quotes and in a
  here-document.
-/

namespace Shell

/-- The length of the word that is being read, with a backslash that may stay in it. -/
def Mode.wordLength : Mode → ℕ
  | .command word => (word.getD []).length
  | .escaped word => (word.getD []).length
  | .double word => word.length
  | .doubleEscaped word => word.length + 1
  | .single word => word.length
  | _ => 0

/-- One more than the length of the here-document that is being read, with a backslash that may
stay in it. -/
def Mode.bodyLength : Mode → ℕ
  | .body _ text line => text.length + line.length + 1
  | .bodyEscaped _ text line => text.length + line.length + 2
  | _ => 0

/-- Nothing of a word or of a here-document is being read. -/
def Mode.idle : Mode → Bool
  | .command none => true
  | .escaped none => true
  | .comment => true
  | _ => false

/-- A character is not in what is being read. -/
def Mode.Lacks (x : UInt8) : Mode → Prop
  | .command word => ∀ w ∈ word, x ∉ w
  | .escaped word => ∀ w ∈ word, x ∉ w
  | .double word => x ∉ word
  | .doubleEscaped word => x ∉ word
  | .single word => x ∉ word
  | .body _ text line => x ∉ text ∧ x ∉ line
  | .bodyEscaped _ text line => x ∉ text ∧ x ∉ line
  | _ => True

/-- A character is in no word of a command and not in its here-document. -/
def Command.Lacks (x : UInt8) (command : Command) : Prop :=
  (∀ word ∈ command.words, x ∉ word) ∧ ∀ input ∈ command.input, x ∉ input

namespace State

/-- The lengths of the words, with one character behind each of them, and of the word that is being
read. -/
def size (s : State) : ℕ := (s.words.flatMap (· ++ [space])).length + s.mode.wordLength

/-- A command has begun. -/
def Begun (s : State) : Prop := s.words ≠ [] ∨ s.mode.idle = false

/-- What happens when `n` characters are read and no command ends. -/
structure Grows (n : ℕ) (s s' : State) : Prop where
  /-- No command ends. -/
  done : s'.done = s.done
  /-- The words stay. -/
  words : s.words <+: s'.words
  /-- Every character is put into a word or ends one at most. -/
  size : s'.size ≤ s.size + n
  /-- The same, when no word ends. -/
  word : s'.words = s.words → s'.mode.wordLength ≤ s.mode.wordLength + n
  /-- A character is needed to end a word. -/
  newWord : s'.words ≠ s.words → s'.mode.wordLength < n
  /-- Every character is put into the here-document at most. -/
  body : s'.mode.bodyLength ≤ s.mode.bodyLength + n
  /-- A command that has begun goes on. -/
  begun : s.Begun → s'.Begun
  /-- In a here-document no word ends. -/
  input : 0 < s.mode.bodyLength → s'.words = s.words ∧ 0 < s'.mode.bodyLength

/-- A command ends. Its here-document is the one that was being read. -/
def Ends (s s' : State) : Prop :=
  ∃ command : Command, s'.done = s.done ++ [command] ∧ ∀ input, command.input = some input →
    command.words = s.words ∧ input.length < s.mode.bodyLength

namespace Grows

variable {n m : ℕ} {s s' s'' : State}

theorem refl (s : State) : Grows 0 s s :=
  ⟨rfl, List.prefix_refl _, Nat.le_refl _, fun _ => Nat.le_refl _, fun h => absurd rfl h,
    Nat.le_refl _, id, fun h => ⟨rfl, h⟩⟩

theorem trans (h : Grows n s s') (h' : Grows m s' s'') : Grows (n + m) s s'' where
  done := h'.done.trans h.done
  words := h.words.trans h'.words
  size := by
    have := h.size
    have := h'.size
    omega
  word heq := by
    have hmid : s'.words = s.words :=
      (h.words.eq_of_length_le (heq ▸ h'.words.length_le)).symm
    have := h.word hmid
    have := h'.word (heq.trans hmid.symm)
    omega
  newWord hne := by
    by_cases hmid : s''.words = s'.words
    · have := h.newWord (hmid ▸ hne)
      have := h'.word hmid
      omega
    · have := h'.newWord hmid
      omega
  body := by
    have := h.body
    have := h'.body
    omega
  begun hs := h'.begun (h.begun hs)
  input hs := by
    obtain ⟨hwords, hmid⟩ := h.input hs
    obtain ⟨hwords', hbody⟩ := h'.input hmid
    exact ⟨hwords'.trans hwords, hbody⟩

theorem of_words_eq (hdone : s'.done = s.done) (hwords : s'.words = s.words)
    (hword : s'.mode.wordLength ≤ s.mode.wordLength + 1)
    (hbody : s'.mode.bodyLength ≤ s.mode.bodyLength + 1)
    (hidle : s.mode.idle = false → s'.mode.idle = false)
    (hinput : 0 < s.mode.bodyLength → 0 < s'.mode.bodyLength) : Grows 1 s s' where
  done := hdone
  words := hwords ▸ List.prefix_refl _
  size := by
    rw [State.size, State.size, hwords]
    omega
  word _ := hword
  newWord hne := absurd hwords hne
  body := hbody
  begun hs := hs.imp (fun hne => by rwa [hwords]) hidle
  input hs := ⟨hwords, hinput hs⟩

theorem endWord (done : List Command) (words : List Text) (word : Option Text) :
    Grows 1 ⟨done, words, .command word⟩ (State.endWord ⟨done, words, .command word⟩ word) := by
  cases word with
  | none =>
    have hwords : words ++ Option.toList none = words := List.append_nil _
    exact of_words_eq rfl hwords (Nat.zero_le _) (Nat.zero_le _) id id
  | some word =>
    have hne : words ++ [word] ≠ words := by simp
    exact ⟨rfl, List.prefix_append _ _, by simp [State.size, State.endWord, Mode.wordLength]; omega,
      fun heq => absurd heq hne, fun _ => Nat.zero_lt_one, Nat.zero_le _,
      fun _ => Or.inl (by simp [State.endWord]), fun h => absurd h (Nat.lt_irrefl 0)⟩

end Grows

/-- A command that ends has words; without words and input nothing has begun. -/
theorem endCommand_cases {s s' : State} {input : Option Text}
    (h : s.endCommand input = some s') :
    (s.words = [] ∧ input = none ∧ s' = { s with mode := .command none }) ∨
      s' = ⟨s.done ++ [⟨s.words, input⟩], [], .command none⟩ := by
  obtain ⟨done, words, mode⟩ := s
  cases words with
  | nil =>
    cases input with
    | none => exact Or.inl ⟨rfl, rfl, (Option.some.inj h).symm⟩
    | some input => cases h
  | cons name args =>
    simp only [endCommand] at h
    split_ifs at h
    exact Or.inr (Option.some.inj h).symm

theorem idle_of_bodyLength {mode : Mode} (h : 0 < mode.bodyLength) : mode.idle ≠ true := by
  cases mode with
  | body => exact Bool.false_ne_true
  | bodyEscaped => exact Bool.false_ne_true
  | _ => exact absurd h (Nat.lt_irrefl 0)

/-- A line ends, and a command with it if one has begun. -/
theorem grows_or_ends_of_endCommand {s s' : State} (s₀ : State) (hdone : s₀.done = s.done)
    (hwords : s.words <+: s₀.words) (hidle : s₀.words = [] → s.mode.idle = true)
    (h : s₀.endCommand none = some s') : Grows 1 s s' ∨ Ends s s' := by
  obtain ⟨hnil, -, rfl⟩ | rfl := endCommand_cases h
  · have hs : s.words = [] := List.prefix_nil.1 (hnil ▸ hwords)
    have hmode := hidle hnil
    refine Or.inl (.of_words_eq hdone (hnil.trans hs.symm) (Nat.zero_le _) (Nat.zero_le _) ?_ ?_)
    · rw [hmode]
      exact fun hbusy => absurd hbusy (by decide)
    · exact fun hbody => absurd hmode (idle_of_bodyLength hbody)
  · exact Or.inr ⟨_, by rw [hdone], fun _ hinput => by cases hinput⟩

/-- **One character.** It puts a character into what is being read at most, or ends a command. -/
theorem step_cases {s s' : State} {c : UInt8} (h : s.step c = some s') :
    Grows 1 s s' ∨ Ends s s' := by
  obtain ⟨done, words, mode⟩ := s
  cases mode with
  | command word =>
    have hidle : (endWord ⟨done, words, .command word⟩ word).words = [] →
        (Mode.command word).idle = true := by
      intro hnil
      obtain ⟨-, hword⟩ := List.append_eq_nil_iff.1 hnil
      cases word with
      | none => rfl
      | some word => cases hword
    simp only [step] at h
    split_ifs at h with hblank hnewline hsemicolon hnil hquote hapostrophe hbackslash hcomment
      hless hplain
    · exact Or.inl (Option.some.inj h ▸ .endWord done words word)
    · exact grows_or_ends_of_endCommand (endWord ⟨done, words, .command word⟩ word) rfl
        (List.prefix_append _ _) hidle h
    · exact grows_or_ends_of_endCommand (endWord ⟨done, words, .command word⟩ word) rfl
        (List.prefix_append _ _) hidle h
    all_goals
      obtain rfl := Option.some.inj h
      refine Or.inl (.of_words_eq rfl rfl ?_ (Nat.zero_le _) ?_ id)
    all_goals cases word <;> simp_all [Mode.wordLength, Mode.idle]
  | comment =>
    simp only [step] at h
    split_ifs at h
    · exact grows_or_ends_of_endCommand ⟨done, words, .comment⟩ rfl (List.prefix_refl _)
        (fun _ => rfl) h
    · obtain rfl := Option.some.inj h
      exact Or.inl (.of_words_eq rfl rfl (Nat.le_succ _) (Nat.le_succ _) id id)
  | body delim text line =>
    simp only [step] at h
    split_ifs at h
    · obtain ⟨-, hnone, -⟩ | rfl := endCommand_cases h
      · cases hnone
      · refine Or.inr ⟨_, rfl, fun input hinput => ⟨rfl, ?_⟩⟩
        obtain rfl := Option.some.inj hinput
        exact Nat.lt_succ_of_le (Nat.le_add_right _ _)
    all_goals
      obtain rfl := Option.some.inj h
      refine Or.inl (.of_words_eq rfl rfl (Nat.zero_le _) ?_ (fun _ => rfl) fun _ => Nat.succ_pos _)
      simp [Mode.bodyLength]
    all_goals omega
  | escaped word =>
    simp only [step] at h
    split_ifs at h
    all_goals
      obtain rfl := Option.some.inj h
      refine Or.inl (.of_words_eq rfl rfl ?_ (Nat.zero_le _) ?_ id)
    all_goals cases word <;> simp [Mode.wordLength, Mode.idle]
  | bodyEscaped delim text line =>
    simp only [step] at h
    split_ifs at h
    all_goals
      obtain rfl := Option.some.inj h
      refine Or.inl (.of_words_eq rfl rfl (Nat.zero_le _) ?_ (fun _ => rfl) fun _ => Nat.succ_pos _)
    all_goals simp [Mode.bodyLength, Nat.add_assoc]
  | _ =>
    simp only [step] at h
    split_ifs at h
    all_goals
      obtain rfl := Option.some.inj h
      refine Or.inl (.of_words_eq rfl rfl ?_ ?_ (fun _ => rfl)
        fun hbody => absurd hbody (Nat.lt_irrefl 0))
    all_goals simp [Mode.wordLength, Mode.bodyLength, Nat.add_assoc]

/-- The text ends, and with it a command if one has begun. -/
theorem finish_cases {s s' : State} (h : s.finish = some s') :
    (s'.done = s.done ∧ ¬ s.Begun) ∨ Ends s s' := by
  obtain ⟨done, words, mode⟩ := s
  cases mode with
  | command word =>
    obtain ⟨hnil, -, rfl⟩ | rfl :=
      endCommand_cases (s := endWord ⟨done, words, .command word⟩ word) h
    · obtain ⟨rfl, hword⟩ := List.append_eq_nil_iff.1 hnil
      refine Or.inl ⟨rfl, fun hbegun => ?_⟩
      cases word with
      | none => exact hbegun.elim (fun hne => hne rfl) (by simp [Mode.idle])
      | some word => cases hword
    · exact Or.inr ⟨_, rfl, fun _ hinput => by cases hinput⟩
  | comment =>
    obtain ⟨rfl, -, rfl⟩ | rfl := endCommand_cases (s := ⟨done, words, .comment⟩) h
    · exact Or.inl ⟨rfl, fun hbegun => hbegun.elim (fun hne => hne rfl) (by simp [Mode.idle])⟩
    · exact Or.inr ⟨_, rfl, fun _ hinput => by cases hinput⟩
  | body delim text line =>
    obtain ⟨-, hnone, -⟩ | rfl :=
      endCommand_cases (s := ⟨done, words, .body delim text line⟩) h
    · cases hnone
    · refine Or.inr ⟨_, rfl, fun input hinput => ⟨rfl, ?_⟩⟩
      obtain rfl := Option.some.inj hinput
      split_ifs
      · exact Nat.lt_succ_of_le (Nat.le_add_right _ _)
      · rw [List.length_append]
        exact Nat.lt_succ_self _
  | _ => cases h

theorem done_prefix_step {s s' : State} {c : UInt8} (h : s.step c = some s') :
    s.done <+: s'.done := by
  obtain hgrows | ⟨command, hdone, -⟩ := step_cases h
  · exact hgrows.done ▸ List.prefix_refl _
  · exact hdone ▸ List.prefix_append _ _

/-- The commands of a text, from a state on. -/
def readFrom (s : State) (t : Text) : Option (List Command) := ((s.run t).bind finish).map done

section Reading

variable {s s' : State} {t u : Text} {cs : List Command}

theorem readFrom_cons (s : State) (c : UInt8) (t : Text) :
    s.readFrom (c :: t) = (s.step c).bind (readFrom · t) := by
  rw [readFrom, run_cons]
  cases s.step c <;> rfl

theorem readFrom_append (s : State) (t u : Text) :
    s.readFrom (t ++ u) = (s.run t).bind (readFrom · u) := by
  rw [readFrom, run_append]
  cases s.run t <;> rfl

theorem done_prefix_run (h : s.run t = some s') : s.done <+: s'.done := by
  induction t generalizing s with
  | nil => exact Option.some.inj h ▸ List.prefix_refl _
  | cons c t ih =>
    rw [run_cons] at h
    obtain ⟨s₁, hs₁, h⟩ := Option.bind_eq_some_iff.1 h
    exact (done_prefix_step hs₁).trans (ih h)

/-- **A text.** While no command ends, every character is put into what is being read at most. -/
theorem run_grows (h : s.run t = some s') (hdone : s'.done = s.done) : Grows t.length s s' := by
  induction t generalizing s with
  | nil => exact Option.some.inj h ▸ .refl s
  | cons c t ih =>
    rw [run_cons] at h
    obtain ⟨s₁, hs₁, h⟩ := Option.bind_eq_some_iff.1 h
    rw [List.length_cons, Nat.add_comm]
    obtain hgrows | ⟨command, hs₁, -⟩ := step_cases hs₁
    · exact hgrows.trans (ih h (hdone.trans hgrows.done.symm))
    · have hle := (done_prefix_run h).length_le
      rw [hdone, hs₁, List.length_append, List.length_singleton] at hle
      omega

theorem done_prefix_readFrom (h : s.readFrom t = some cs) : s.done <+: cs := by
  obtain ⟨s₁, hs₁, rfl⟩ := Option.map_eq_some_iff.1 h
  obtain ⟨s₂, hs₂, hs₁⟩ := Option.bind_eq_some_iff.1 hs₁
  refine (done_prefix_run hs₂).trans ?_
  obtain ⟨hdone, -⟩ | ⟨command, hdone, -⟩ := finish_cases hs₁
  · exact hdone ▸ List.prefix_refl _
  · exact hdone ▸ List.prefix_append _ _

theorem length_done_lt (h : s.readFrom t = some cs) (hs : s.Begun) :
    s.done.length < cs.length := by
  induction t generalizing s with
  | nil =>
    obtain ⟨s₁, hs₁, rfl⟩ := Option.map_eq_some_iff.1 h
    obtain ⟨-, hbegun⟩ | ⟨command, hdone, -⟩ := finish_cases hs₁
    · exact absurd hs hbegun
    · simp [hdone]
  | cons c t ih =>
    rw [readFrom_cons] at h
    obtain ⟨s₁, hs₁, h⟩ := Option.bind_eq_some_iff.1 h
    obtain hgrows | ⟨command, hdone, -⟩ := step_cases hs₁
    · exact hgrows.done ▸ ih h (hgrows.begun hs)
    · have hle := (done_prefix_readFrom h).length_le
      rw [hdone, List.length_append, List.length_singleton] at hle
      omega

/-- The first command that ends is the one that is read. -/
theorem Ends.of_prefix {words : List Text} {input : Text} (h : Ends s s') (hs : s.done = [])
    (hfront : s'.done <+: [⟨words, some input⟩]) :
    words = s.words ∧ input.length < s.mode.bodyLength := by
  obtain ⟨command, hdone, hinput⟩ := h
  rw [hdone, hs, List.nil_append] at hfront
  obtain ⟨v, hv⟩ := hfront
  obtain rfl := (List.cons.inj hv).1
  exact hinput input rfl

/-- The words of a command with a here-document are those in front of it. -/
theorem words_eq_of_readFrom {words : List Text} {input : Text} (hs : s.done = [])
    (hbody : 0 < s.mode.bodyLength) (h : s.readFrom t = some [⟨words, some input⟩]) :
    words = s.words := by
  induction t generalizing s with
  | nil =>
    obtain ⟨s₁, hs₁, hdone⟩ := Option.map_eq_some_iff.1 h
    obtain ⟨heq, -⟩ | hend := finish_cases hs₁
    · rw [heq, hs] at hdone
      cases hdone
    · exact (hend.of_prefix hs ⟨[], by rw [List.append_nil, hdone]⟩).1
  | cons c t ih =>
    rw [readFrom_cons] at h
    obtain ⟨s₁, hs₁, h⟩ := Option.bind_eq_some_iff.1 h
    obtain hgrows | hend := step_cases hs₁
    · obtain ⟨hwords, hmore⟩ := hgrows.input hbody
      exact (ih (hgrows.done.trans hs) hmore h).trans hwords
    · exact (hend.of_prefix hs (done_prefix_readFrom h)).1

/-- **No text grows.** A here-document is shorter than the text that is read. -/
theorem length_input_lt {words : List Text} {input : Text} (hs : s.done = [])
    (h : s.readFrom t = some [⟨words, some input⟩]) :
    input.length < s.mode.bodyLength + t.length := by
  induction t generalizing s with
  | nil =>
    obtain ⟨s₁, hs₁, hdone⟩ := Option.map_eq_some_iff.1 h
    obtain ⟨heq, -⟩ | hend := finish_cases hs₁
    · rw [heq, hs] at hdone
      cases hdone
    · exact (hend.of_prefix hs ⟨[], by rw [List.append_nil, hdone]⟩).2
  | cons c t ih =>
    rw [readFrom_cons] at h
    obtain ⟨s₁, hs₁, h⟩ := Option.bind_eq_some_iff.1 h
    rw [List.length_cons]
    obtain hgrows | hend := step_cases hs₁
    · have hlt := ih (hgrows.done.trans hs) h
      have hle := hgrows.body
      omega
    · have hlt := (hend.of_prefix hs (done_prefix_readFrom h)).2
      omega

end Reading

/-! ### Double quotes -/

section Double

variable {done : List Command} {words : List Text} {word t : Text} {next : UInt8}

theorem step_double_cases {c : UInt8} {s : State}
    (h : step ⟨done, words, .double word⟩ c = some s) :
    (c = quote ∧ s = ⟨done, words, .command (some word)⟩) ∨
    (c = backslash ∧ s = ⟨done, words, .doubleEscaped word⟩) ∨
    (c ≠ backslash ∧ c ∉ [quote, dollar, backquote] ∧
      s = ⟨done, words, .double (word ++ [c])⟩) := by
  simp only [step] at h
  split_ifs at h with hq hb hspecial
  · exact Or.inl ⟨hq, (Option.some.inj h).symm⟩
  · exact Or.inr (Or.inl ⟨hb, (Option.some.inj h).symm⟩)
  · refine Or.inr (Or.inr ⟨hb, ?_, (Option.some.inj h).symm⟩)
    rw [List.mem_cons, not_or]
    exact ⟨hq, by simpa using hspecial⟩

/-- What a character does behind a backslash in double quotes. -/
theorem step_doubleEscaped_cases {c : UInt8} {s : State}
    (h : step ⟨done, words, .doubleEscaped word⟩ c = some s) :
    s = ⟨done, words, .double word⟩ ∨ s = ⟨done, words, .double (word ++ [c])⟩ ∨
    (c ∉ [newline, quote, dollar, backquote, backslash] ∧
      s = ⟨done, words, .double (word ++ [backslash, c])⟩) := by
  simp only [step] at h
  split_ifs at h with hn hescape
  · exact Or.inl (Option.some.inj h).symm
  · exact Or.inr (Or.inl (Option.some.inj h).symm)
  · refine Or.inr (Or.inr ⟨?_, (Option.some.inj h).symm⟩)
    rw [List.mem_cons, not_or]
    exact ⟨hn, fun hmem => hescape (by simpa [or_left_comm] using hmem)⟩

/-- **What arrives whole in double quotes is verbatim.** -/
theorem doubleVerbatim_of_run (h : run ⟨done, words, .double word⟩ t =
    some ⟨done, words, .double (word ++ t)⟩) : DoubleVerbatim t next := by
  induction t generalizing word with
  | nil => trivial
  | cons c t ih =>
    -- what is read on the way is not longer than the text
    have hshort : ∀ (mode : Mode) (u : Text), run ⟨done, words, mode⟩ u =
        some ⟨done, words, .double (word ++ c :: t)⟩ →
        word.length + (t.length + 1) ≤ mode.wordLength + u.length := by
      intro mode u hu
      simpa [Mode.wordLength] using (run_grows hu rfl).word rfl
    have hread := h
    rw [run_cons] at h
    obtain ⟨s, hs, h⟩ := Option.bind_eq_some_iff.1 h
    obtain ⟨-, rfl⟩ | ⟨rfl, rfl⟩ | ⟨hb, hspecial, rfl⟩ := step_double_cases hs
    · have hle := hshort _ _ h
      simp only [Mode.wordLength, Option.getD_some] at hle
      omega
    · cases t with
      | nil => cases h
      | cons d t =>
        rw [run_cons] at h
        obtain ⟨s, hs, h⟩ := Option.bind_eq_some_iff.1 h
        obtain rfl | rfl | ⟨hescape, rfl⟩ := step_doubleEscaped_cases hs
        · have hle := hshort _ _ h
          simp only [Mode.wordLength, List.length_cons] at hle
          omega
        · have hle := hshort _ _ h
          simp only [Mode.wordLength, List.length_append, List.length_cons, List.length_nil]
            at hle
          omega
        · have hkept : run ⟨done, words, .double (word ++ [backslash])⟩ (d :: t) =
              some ⟨done, words, .double (word ++ [backslash] ++ d :: t)⟩ := by
            rw [List.append_assoc, List.singleton_append]
            exact (run_double_backslash done words word (t := []) hescape t).symm.trans hread
          exact ⟨by decide, fun _ => hescape, ih hkept⟩
    · have hkept : run ⟨done, words, .double (word ++ [c])⟩ t =
          some ⟨done, words, .double (word ++ [c] ++ t)⟩ := by
        rw [h, List.append_assoc, List.singleton_append]
      exact ⟨hspecial, fun heq => absurd heq hb, ih hkept⟩

end Double

/-! ### Here-documents -/

section Body

variable {words words' : List Text} {delim input : Text}

/-- A line that is the delimiter ends the here-document. -/
theorem input_eq_of_delimiter {text t : Text}
    (h : readFrom ⟨[], words, .body delim text delim⟩ (newline :: t) =
      some [⟨words', some input⟩]) : input = text := by
  rw [readFrom_cons] at h
  obtain ⟨s, hs, h⟩ := Option.bind_eq_some_iff.1 h
  have hend : endCommand ⟨[], words, .body delim text delim⟩ (some text) = some s := by
    simpa [step] using hs
  obtain ⟨-, hnone, -⟩ | rfl := endCommand_cases hend
  · cases hnone
  · obtain ⟨v, hv⟩ := done_prefix_readFrom h
    obtain ⟨-, hinput⟩ := Command.mk.inj (List.cons.inj hv).1.symm
    exact Option.some.inj hinput

/-- What a character does in a line of a here-document. -/
theorem step_body_cases {done : List Command} {text line : Text} {c : UInt8} {s : State}
    (h : step ⟨done, words, .body delim text line⟩ c = some s) :
    (c = newline ∧ line = delim) ∨
    (c = newline ∧ line ≠ delim ∧
      s = ⟨done, words, .body delim (text ++ line ++ [newline]) []⟩) ∨
    (c = backslash ∧ s = ⟨done, words, .bodyEscaped delim text line⟩) ∨
    (c ≠ newline ∧ c ≠ backslash ∧ c ∉ [dollar, backquote] ∧
      s = ⟨done, words, .body delim text (line ++ [c])⟩) := by
  simp only [step] at h
  split_ifs at h with hn hdelim hb hspecial
  · exact Or.inl ⟨hn, hdelim⟩
  · exact Or.inr (Or.inl ⟨hn, hdelim, (Option.some.inj h).symm⟩)
  · exact Or.inr (Or.inr (Or.inl ⟨hb, (Option.some.inj h).symm⟩))
  · exact Or.inr (Or.inr (Or.inr ⟨hn, hb, by simpa using hspecial, (Option.some.inj h).symm⟩))

/-- What a character does behind a backslash in a here-document. -/
theorem step_bodyEscaped_cases {done : List Command} {text line : Text} {c : UInt8} {s : State}
    (h : step ⟨done, words, .bodyEscaped delim text line⟩ c = some s) :
    s = ⟨done, words, .body delim text (line ++ [c])⟩ ∨
    (c ∉ [newline, dollar, backquote, backslash] ∧
      s = ⟨done, words, .body delim text (line ++ [backslash, c])⟩) := by
  simp only [step] at h
  split_ifs at h with hn hescape
  · exact Or.inl (Option.some.inj h).symm
  · exact Or.inr ⟨by rw [List.mem_cons, not_or]; exact ⟨hn, hescape⟩, (Option.some.inj h).symm⟩

/-- **Nothing is lost.** When a here-document is as long as the text, the text is verbatim and none
of its lines is the delimiter. -/
theorem bodyVerbatim_of_length {text line t : Text} (hline : newline ∉ line)
    (h : readFrom ⟨[], words, .body delim text line⟩ (t ++ [newline]) =
      some [⟨words', some input⟩])
    (hlength : input.length = text.length + line.length + t.length + 1) :
    BodyVerbatim t newline ∧ delim ∉ (line ++ t).splitOn newline := by
  induction t generalizing text line with
  | nil =>
    refine ⟨trivial, ?_⟩
    rw [List.append_nil, List.splitOn_eq_singleton hline, List.mem_singleton]
    rintro rfl
    rw [input_eq_of_delimiter h, List.length_nil] at hlength
    omega
  | cons c t ih =>
    rw [List.cons_append] at h
    have hread := h
    rw [readFrom_cons] at h
    obtain ⟨s, hs, h⟩ := Option.bind_eq_some_iff.1 h
    rw [List.length_cons] at hlength
    obtain ⟨rfl, rfl⟩ | ⟨rfl, hdelim, rfl⟩ | ⟨rfl, rfl⟩ | ⟨hn, hb, hspecial, rfl⟩ :=
      step_body_cases hs
    · rw [input_eq_of_delimiter hread] at hlength
      omega
    · -- a line ends
      obtain ⟨hverbatim, hlines⟩ := ih List.not_mem_nil h (by simp; omega)
      rw [List.splitOn_append_cons_self_of_not_mem hline, List.mem_cons, not_or]
      exact ⟨⟨by decide, fun heq => absurd heq (by decide), hverbatim⟩, Ne.symm hdelim, hlines⟩
    · -- a backslash; were it to escape a character, it would be lost
      have hback : newline ∉ line ++ [backslash] := by
        rw [List.mem_append, List.mem_singleton, not_or]
        exact ⟨hline, by decide⟩
      obtain ⟨u, hu⟩ := exists_append_eq t newline []
      have hu_length : u.length = t.length := by simpa using congrArg List.length hu.symm
      rw [hu, readFrom_cons] at h
      obtain ⟨s, hs, h⟩ := Option.bind_eq_some_iff.1 h
      obtain rfl | ⟨hescape, rfl⟩ := step_bodyEscaped_cases hs
      · have hlt := length_input_lt rfl h
        simp only [Mode.bodyLength, List.length_append, List.length_cons, List.length_nil] at hlt
        omega
      · have hkept : readFrom ⟨[], words, .body delim text (line ++ [backslash])⟩
            (t ++ [newline]) = some [⟨words', some input⟩] := by
          rw [readFrom, ← run_body_backslash [] words delim text line hescape []]
          exact hread
        obtain ⟨hverbatim, hlines⟩ := ih hback hkept (by simp; omega)
        rw [List.append_assoc, List.singleton_append] at hlines
        exact ⟨⟨by decide, fun _ => hescape, hverbatim⟩, hlines⟩
    · have hline' : newline ∉ line ++ [c] := by
        rw [List.mem_append, List.mem_singleton, not_or]
        exact ⟨hline, fun heq => hn heq.symm⟩
      obtain ⟨hverbatim, hlines⟩ := ih hline' h (by simp; omega)
      rw [List.append_assoc, List.singleton_append] at hlines
      exact ⟨⟨hspecial, fun heq => absurd heq hb, hverbatim⟩, hlines⟩

/-- **Here-documents, exactly.** The lines up to the end of the text become the input of the
command as they are if and only if they are verbatim and none of them is the delimiter. -/
theorem readFrom_body_iff {name : Text} {args : List Text} {text line t : Text}
    (hname : name ∉ reserved) (hdelim : delim ≠ []) (hline : newline ∉ line) :
    readFrom ⟨[], name :: args, .body delim text line⟩ (t ++ [newline]) =
        some [⟨name :: args, some (text ++ line ++ t ++ [newline])⟩] ↔
      BodyVerbatim t newline ∧ delim ∉ (line ++ t).splitOn newline := by
  constructor
  · intro h
    exact bodyVerbatim_of_length hline h (by simp [Nat.add_assoc])
  · rintro ⟨hverbatim, hlines⟩
    rw [readFrom, run_body [] _ text hverbatim hline hlines []]
    simp only [run, List.foldlM_nil, Option.pure_def, Option.bind_some, finish,
      if_neg (Ne.symm hdelim), List.append_nil, endCommand, if_neg hname, Option.map_some,
      List.nil_append]

end Body

/-! ### Arguments in double quotes -/

/-- The end of an argument, with what follows it in the next line. -/
def close (t : Text) : Text := quote :: space :: backslash :: newline :: t

/-- Behind the end of an argument the text has the words `options`, and ends in the mode `mode`.
Read in quotes it ends no word. -/
structure Separates (t : Text) (options : List Text) (mode : Mode) : Prop where
  /-- Outside of quotes. -/
  command : ∀ done words, run ⟨done, words, .command none⟩ t = some ⟨done, words ++ options, mode⟩
  /-- In double quotes. -/
  double : ∀ done words word, ∃ mode', run ⟨done, words, .double word⟩ t =
    some ⟨done, words, mode'⟩ ∧ mode'.bodyLength = 0 ∧ mode'.idle = false
  /-- In single quotes. -/
  single : ∀ done words word, ∃ mode', run ⟨done, words, .single word⟩ t =
    some ⟨done, words, mode'⟩ ∧ mode'.bodyLength = 0 ∧ mode'.idle = false

section Arguments

variable {s s' : State} {t : Text} {options : List Text} {mode : Mode}

/-- A verbatim argument in double quotes, its end, and what follows it. -/
theorem Separates.readFrom_double (h : Separates t options mode) {word : Text}
    (hword : DoubleVerbatim word quote) (done : List Command) (words : List Text) (rest : Text) :
    readFrom ⟨done, words, .double []⟩ (word ++ close t ++ rest) =
      readFrom ⟨done, words ++ word :: options, mode⟩ rest := by
  have hclose : run ⟨done, words, .double word⟩ (close t) =
      some ⟨done, words ++ word :: options, mode⟩ := by
    have hcommand := h.command done (words ++ [word])
    rw [List.append_assoc, List.singleton_append] at hcommand
    exact hcommand
  rw [List.append_assoc, readFrom, run_double done words [] hword rfl, List.nil_append,
    run_append_of hclose, readFrom]

/-- The end of an argument is read as such, or it is read in quotes, or a comment ends there. -/
theorem Separates.run_cases (h : Separates t options mode)
    (hrun : s.run (close t) = some s') :
    (s'.words = s.words ∧ s'.mode.bodyLength = 0 ∧ s'.mode.idle = false) ∨
    (∃ word, (s.mode = .double word ∨ ∃ w, s.mode = .escaped w ∧ word = w.getD [] ++ [quote]) ∧
      s' = ⟨s.done, s.words ++ word :: options, mode⟩) ∨
    (s'.words = options ∧ (s.words = [] ∨ s'.done ≠ [])) := by
  obtain ⟨done, words, mode₀⟩ := s
  cases mode₀ with
  | command word =>
    obtain ⟨mode', heq, hbody, hidle⟩ := h.double done words (word.getD [] ++ [space])
    obtain rfl := Option.some.inj (heq.symm.trans hrun)
    exact Or.inl ⟨rfl, hbody, hidle⟩
  | escaped word =>
    have heq := h.command done (words ++ [word.getD [] ++ [quote]])
    obtain rfl := Option.some.inj (heq.symm.trans hrun)
    refine Or.inr (Or.inl ⟨_, Or.inr ⟨word, rfl, rfl⟩, ?_⟩)
    simp
  | double word =>
    have heq := h.command done (words ++ [word])
    obtain rfl := Option.some.inj (heq.symm.trans hrun)
    refine Or.inr (Or.inl ⟨word, Or.inl rfl, ?_⟩)
    simp
  | doubleEscaped word =>
    obtain ⟨mode', heq, hbody, hidle⟩ := h.double done words (word ++ [quote] ++ [space])
    obtain rfl := Option.some.inj (heq.symm.trans hrun)
    exact Or.inl ⟨rfl, hbody, hidle⟩
  | single word =>
    obtain ⟨mode', heq, hbody, hidle⟩ := h.single done words
      (word ++ [quote] ++ [space] ++ [backslash] ++ [newline])
    obtain rfl := Option.some.inj (heq.symm.trans hrun)
    exact Or.inl ⟨rfl, hbody, hidle⟩
  | comment =>
    have hend : (endCommand ⟨done, words, .comment⟩ none).bind (run · t) = some s' := hrun
    obtain ⟨s₁, hs₁, hrun⟩ := Option.bind_eq_some_iff.1 hend
    obtain ⟨hnil, -, rfl⟩ | rfl := endCommand_cases hs₁
    · obtain rfl : words = [] := hnil
      obtain rfl := Option.some.inj ((h.command done []).symm.trans hrun)
      exact Or.inr (Or.inr ⟨rfl, Or.inl rfl⟩)
    · obtain rfl := Option.some.inj ((h.command _ []).symm.trans hrun)
      exact Or.inr (Or.inr ⟨rfl, Or.inr (by simp)⟩)
  | less => cases hrun
  | delimiter delim => cases hrun
  | body delim text line => cases hrun
  | bodyEscaped delim text line => cases hrun

theorem Separates.begun (h : Separates t options mode) (hoptions : options ≠ []) {value : Text}
    (hrun : s.run (value ++ close t) = some s') : s'.Begun := by
  rw [run_append] at hrun
  obtain ⟨s₁, -, hclose⟩ := Option.bind_eq_some_iff.1 hrun
  obtain ⟨-, -, hidle⟩ | ⟨word, -, rfl⟩ | ⟨hwords, -⟩ := h.run_cases hclose
  · exact Or.inr hidle
  · exact Or.inl (by simp)
  · exact Or.inl (hwords ▸ hoptions)

theorem mode_ne_escaped {word : Text} {w : Option Text} (hrun : s.run (word ++ [quote]) = some s') :
    s'.mode ≠ .escaped w := by
  rw [run_append] at hrun
  obtain ⟨⟨done, words, mode⟩, -, hstep⟩ := Option.bind_eq_some_iff.1 hrun
  rintro hmode
  cases mode <;> cases hstep <;> cases hmode

/-- A word that is as long as the text was not begun in the text. -/
theorem words_eq_of_run_double {value : Text} {words : List Text}
    (hrun : s.run value = some ⟨s.done, words, .double value⟩) : words = s.words := by
  by_contra hne
  exact absurd ((run_grows hrun rfl).newWord hne) (Nat.lt_irrefl _)

/-- **An argument that arrives.** When a text up to the end of an argument is read to itself, behind
the words that precede it and in front of the options, and has not been read on in quotes, since
there would be more of the words than of the text, it is verbatim if it was begun in quotes. -/
theorem Separates.argument (h : Separates t options mode) (words : List Text) {value : Text}
    (hrun : s.run (value ++ close t) = some s') (hdone : s'.done = []) (hs : s.words ≠ [])
    (hwords : s'.words = words ++ value :: options)
    (hsize : s'.mode.bodyLength = 0 →
      s.size + value.length < (s'.words.flatMap (· ++ [space])).length) :
    s.words = words ∧ s'.mode = mode ∧ (s.mode = .double [] → DoubleVerbatim value quote) := by
  rw [run_append] at hrun
  obtain ⟨s₁, hvalue, hclose⟩ := Option.bind_eq_some_iff.1 hrun
  have hdone₁ : s₁.done = [] := List.prefix_nil.1 (hdone ▸ done_prefix_run hclose)
  have hdone₀ : s.done = [] := List.prefix_nil.1 (hdone₁ ▸ done_prefix_run hvalue)
  have hgrows := run_grows hvalue (hdone₁.trans hdone₀.symm)
  obtain ⟨hsame, hbody, -⟩ | ⟨word, hmode, rfl⟩ | ⟨-, hnil⟩ := h.run_cases hclose
  · have hlt := hsize hbody
    have hle : (s₁.words.flatMap (· ++ [space])).length ≤ s₁.size := Nat.le_add_right _ _
    have hgrown := hgrows.size
    rw [hsame] at hlt
    omega
  · obtain ⟨rfl, hcons⟩ := List.append_inj' hwords rfl
    obtain rfl := (List.cons.inj hcons).1
    obtain hdouble | ⟨w, hescaped, rfl⟩ := hmode
    · obtain ⟨done, words₀, mode₀⟩ := s
      obtain ⟨done₁, words₁, mode₁⟩ := s₁
      obtain rfl : done = [] := hdone₀
      obtain rfl : done₁ = [] := hdone₁
      obtain rfl : mode₁ = .double word := hdouble
      obtain rfl := words_eq_of_run_double hvalue
      refine ⟨rfl, rfl, fun hquoted => ?_⟩
      obtain rfl : mode₀ = .double [] := hquoted
      exact doubleVerbatim_of_run hvalue
    · exact absurd hescaped (mode_ne_escaped hvalue)
  · have hne : s₁.words ≠ [] := fun heq => hs (List.prefix_nil.1 (heq ▸ hgrows.words))
    exact (hnil.elim hne fun hsome => hsome hdone).elim

end Arguments

/-! ### Where the characters come from -/

section Chars

variable {x : UInt8}

/-- A character is in nothing that has been read. -/
structure Lacks (x : UInt8) (s : State) : Prop where
  done : ∀ command ∈ s.done, command.Lacks x
  words : ∀ word ∈ s.words, x ∉ word
  mode : s.mode.Lacks x

theorem Lacks.endWord {s : State} {word : Option Text} (h : s.Lacks x)
    (hword : ∀ w ∈ word, x ∉ w) : (s.endWord word).Lacks x := by
  refine ⟨h.done, fun w hw => ?_, fun w hw => by cases hw⟩
  obtain hw | hw := List.mem_append.1 hw
  · exact h.words w hw
  · exact hword w (Option.mem_toList.1 hw)

theorem Lacks.endCommand {s s' : State} {input : Option Text} (h : s.Lacks x)
    (hinput : ∀ t ∈ input, x ∉ t) (hs : s.endCommand input = some s') : s'.Lacks x := by
  obtain ⟨done, words, mode⟩ := s
  cases words with
  | nil =>
    cases input with
    | none =>
      obtain rfl := Option.some.inj hs
      exact ⟨h.done, h.words, fun w hw => by cases hw⟩
    | some input => cases hs
  | cons name args =>
    simp only [State.endCommand] at hs
    split_ifs at hs
    obtain rfl := Option.some.inj hs
    refine ⟨fun command hcommand => ?_, fun w hw => (by cases hw), fun w hw => by cases hw⟩
    obtain hcommand | hcommand := List.mem_append.1 hcommand
    · exact h.done command hcommand
    · obtain rfl := List.mem_singleton.1 hcommand
      exact ⟨h.words, hinput⟩

theorem Lacks.step {s s' : State} {c : UInt8} (h : s.Lacks x) (hc : x ≠ c) (hb : x ≠ backslash)
    (hs : s.step c = some s') : s'.Lacks x := by
  obtain ⟨done, words, mode⟩ := s
  have hgetD : ∀ word : Option Text, (∀ w ∈ word, x ∉ w) → x ∉ word.getD [] := by
    intro word hword
    cases word with
    | none => exact List.not_mem_nil
    | some word => exact hword word rfl
  have hmode := h.mode
  cases mode with
  | command word =>
    have hword := hgetD word hmode
    simp only [State.step] at hs
    split_ifs at hs
    · exact Option.some.inj hs ▸ h.endWord hmode
    · exact (h.endWord hmode).endCommand (fun t ht => by cases ht) hs
    · exact (h.endWord hmode).endCommand (fun t ht => by cases ht) hs
    all_goals
      obtain rfl := Option.some.inj hs
      exact ⟨h.done, h.words, by simp_all [Mode.Lacks]⟩
  | escaped word =>
    have hword := hgetD word hmode
    simp only [State.step] at hs
    split_ifs at hs
    all_goals
      obtain rfl := Option.some.inj hs
      exact ⟨h.done, h.words, by simp_all [Mode.Lacks]⟩
  | comment =>
    simp only [State.step] at hs
    split_ifs at hs
    · exact h.endCommand (fun t ht => by cases ht) hs
    · exact Option.some.inj hs ▸ h
  | body delim text line =>
    simp only [State.step] at hs
    split_ifs at hs
    · exact h.endCommand (fun t ht => Option.some.inj ht ▸ hmode.1) hs
    all_goals
      obtain rfl := Option.some.inj hs
      exact ⟨h.done, h.words, by simp_all [Mode.Lacks]⟩
  | _ =>
    simp only [State.step] at hs
    split_ifs at hs
    all_goals
      obtain rfl := Option.some.inj hs
      exact ⟨h.done, h.words, by simp_all [Mode.Lacks]⟩

theorem Lacks.finish {s s' : State} (h : s.Lacks x) (hs : s.finish = some s') : s'.Lacks x := by
  obtain ⟨done, words, mode⟩ := s
  have hmode := h.mode
  cases mode with
  | command word => exact (h.endWord hmode).endCommand (fun t ht => by cases ht) hs
  | comment => exact h.endCommand (fun t ht => by cases ht) hs
  | body delim text line =>
    refine h.endCommand (fun t ht => ?_) hs
    obtain rfl := Option.some.inj ht
    split_ifs
    · exact hmode.1
    · exact fun hmem => (List.mem_append.1 hmem).elim hmode.1 hmode.2
  | _ => cases hs

/-- **No character comes from nowhere**, but for backslashes. -/
theorem lacks_of_readFrom {s : State} {t : Text} {cs : List Command} (h : s.Lacks x)
    (hb : x ≠ backslash) (ht : x ∉ t) (hread : s.readFrom t = some cs) :
    ∀ command ∈ cs, command.Lacks x := by
  induction t generalizing s with
  | nil =>
    obtain ⟨s', hs', rfl⟩ := Option.map_eq_some_iff.1 hread
    exact (h.finish hs').done
  | cons c t ih =>
    rw [readFrom_cons] at hread
    obtain ⟨s', hs', hread⟩ := Option.bind_eq_some_iff.1 hread
    rw [List.mem_cons, not_or] at ht
    exact ih (h.step ht.1 hb hs') ht.2 hread

end Chars

end State

end Shell
