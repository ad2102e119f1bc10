import Behh.Communication.Smtps

/-!
# Filling templates

Both mail functions fill the content of a mail by replacing one string after the other, and the
function that calls curl fills its command in the same way. What a value contributes is read again
by the replacements that follow: a value in which a later placeholder stands is changed by them.

## Main results

* `templates_filled`: what the templates are filled to, and when this is what filling them at once
  gives.
-/

namespace Behh

open Substitution

/-- **Filled templates.** The command is its template, filled at once with what later replacements
make of the values, and with the values themselves if none of them contains a later placeholder.
The content is its template filled at once, in whatever order the strings to look for are given, if
they stand apart in the template and no replacement gives rise to another of them. -/
theorem templates_filled :
    (∀ v : SmtpsFields, ∃ n, ∀ fuel ≥ n, smtpsCommand fuel v =
        some (substitute (Placeholder.table v.filled Placeholder.all) cmdTemplate)) ∧
      (∀ v : SmtpsFields, (∀ p, ∀ p' ∈ Placeholder.later p, ¬ p'.text <:+: v.value p) →
        ∃ n, ∀ fuel ≥ n, smtpsCommand fuel v =
          some (substitute (Placeholder.table v.value Placeholder.all) cmdTemplate)) ∧
      ∀ (html : Bytes) (datas : List LookAndReplace),
        Separate (LookAndReplace.table datas) html →
        GivesRiseToNone (LookAndReplace.table datas) html →
        ∀ datas' : List LookAndReplace, datas'.Perm datas →
          ∃ n, ∀ fuel ≥ n, andReplaceEach fuel datas' html =
            some (substitute (LookAndReplace.table datas) html) := by
  refine ⟨fun v => ?_, fun v hlater => ?_, fun html datas hseparate hnone datas' hperm => ?_⟩
  · rw [substitute_cmdTemplate]
    exact smtpsCommand_eq v
  · have hfilled : v.filled = v.value := funext fun p => filled_eq_value v (hlater p)
    rw [substitute_cmdTemplate, ← hfilled]
    exact smtpsCommand_eq v
  · have htable : (LookAndReplace.table datas').Perm (LookAndReplace.table datas) := hperm.map _
    have hseparate' := hseparate.perm htable.symm
    have hlook : ∀ data ∈ datas', data.toLook ≠ [] := fun data hdata =>
      hseparate'.nonempty (data.toLook, data.toReplace) (List.mem_map_of_mem hdata)
    obtain ⟨n, hn⟩ := andReplaceEach_eq hlook html
    refine ⟨n, fun fuel hfuel => ?_⟩
    rw [hn fuel hfuel, replaceEach_eq_substitute hseparate' (hnone.subperm htable.subperm),
      substitute_perm hseparate' htable]

/-- The greeting of a mail, filled in either order. -/
theorem templates_filled_greeting :
    ∃ n, ∀ fuel ≥ n,
      andReplaceEach fuel [⟨str "{NAME}", str "Ann"⟩, ⟨str "{TITLE}", str "Dr."⟩]
          (str "Hi {TITLE} {NAME}!") =
        some (substitute [(str "{TITLE}", str "Dr."), (str "{NAME}", str "Ann")]
          (str "Hi {TITLE} {NAME}!")) :=
  templates_filled.2.2 (str "Hi {TITLE} {NAME}!")
    [⟨str "{TITLE}", str "Dr."⟩, ⟨str "{NAME}", str "Ann"⟩] (by decide)
    (by decide) _ (List.Perm.swap ..)

/-- A server that is named like the placeholder of the port. -/
def portAsServer : SmtpsFields := ⟨str "{SMTP_PORT}", str "465", [], [], [], [], [], []⟩

/-- The placeholder in the name of the server is replaced, and strings that are put in are replaced
by the pairs behind them in the list. -/
theorem not_simultaneous :
    (¬ ∀ (v : SmtpsFields) (fuel : ℕ) (cmd : Bytes), smtpsCommand fuel v = some cmd →
        cmd = substitute (Placeholder.table v.value Placeholder.all) cmdTemplate) ∧
      ¬ ∀ (html : Bytes) (datas datas' : List LookAndReplace) (fuel : ℕ) (content content' : Bytes),
        Separate (LookAndReplace.table datas) html → datas'.Perm datas →
        andReplaceEach fuel datas html = some content →
        andReplaceEach fuel datas' html = some content' → content = content' := by
  constructor
  · intro h
    obtain ⟨n, hn⟩ := smtpsCommand_eq portAsServer
    have heq := h portAsServer n _ (hn n (Nat.le_refl n))
    rw [substitute_cmdTemplate] at heq
    exact absurd heq (by decide)
  · intro h
    have heq := h (str "a") [⟨str "a", str "b"⟩, ⟨str "b", str "c"⟩]
      [⟨str "b", str "c"⟩, ⟨str "a", str "b"⟩] 3 (str "c") (str "b") (by decide)
      (List.Perm.swap ..) (by decide) (by decide +kernel)
    exact absurd heq (by decide)

end Behh
