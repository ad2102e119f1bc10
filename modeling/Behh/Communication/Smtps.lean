import Behh.Std.FileStream
import Behh.Utility.Find

/-!
# Mail with the executable of curl

`curl_cmd_impl::smtps_send_mail_by_template_future` fills a template of a shell command and passes
it to `system`. The eight placeholders are replaced one after the other, in a text that holds the
values of those before. The content of the mail is a template of its own, read from a file, in
which the caller names the strings to look for.

## Main definitions

* `cmdTemplate`, `Placeholder`: the template of the command.
* `SmtpsFields`: the values.
* `smtpsCommand`: the command.
* `smtpsSendMailByTemplateFuture`: the function.

## Main results

* `smtpsCommand_eq`: the command, for all values.
* `smtpsSendMail_apply`: what is passed to `system`.
-/

namespace Behh

open Substitution

/-! ### The command -/

/-- `CMD` before the placeholders are replaced. -/
def cmdTemplate : Bytes :=
  str "curl --ssl-reqd --url \"smtps://{SMTP_SERVER}:{SMTP_PORT}\" \\\n" ++
  str "--silent \\\n" ++
  str "--user \"{SMTP_USER}:{SMTP_PASSWD}\" \\\n" ++
  str "--mail-from \"{SMTP_USER}\" \\\n" ++
  str "--mail-rcpt \"{RECIPIENT_ADDRESS}\" \\\n" ++
  str "--upload-file - << EOF\n" ++
  str "From: {SMTP_SENDER} <{SMTP_USER}>\n" ++
  str "To: {RECIPIENT_ADDRESS}\n" ++
  str "Subject: {RECIPIENT_SUBJECT}\n" ++
  str "Content-Type: text/html; charset=\"UTF-8\"\n" ++
  str "\n" ++
  str "{RECIPIENT_CONTENT}\n"

/-- The values that the placeholders are replaced by. -/
structure SmtpsFields where
  /-- `smtp_server`. -/
  smtpServer : Bytes
  /-- `smtp_port`. -/
  smtpPort : Bytes
  /-- `smtp_sender_address`. -/
  smtpSenderAddress : Bytes
  /-- `smtp_sender_password`. -/
  smtpSenderPassword : Bytes
  /-- `smtp_sender_name`. -/
  smtpSenderName : Bytes
  /-- `RECIPIENT_ADDRESS`. -/
  recipientAddress : Bytes
  /-- `RECIPIENT_SUBJECT`. -/
  recipientSubject : Bytes
  /-- `RECIPIENT_CONTENT`. -/
  recipientContent : Bytes

/-- `CMD` after the placeholders have been replaced, each in a loop that is granted `fuel`
iterations. -/
def smtpsCommand (fuel : ℕ) (v : SmtpsFields) : Option Bytes := do
  let (_, cmd) ← andReplaceAll fuel cmdTemplate (str "{SMTP_SERVER}") v.smtpServer
  let (_, cmd) ← andReplaceAll fuel cmd (str "{SMTP_PORT}") v.smtpPort
  let (_, cmd) ← andReplaceAll fuel cmd (str "{SMTP_USER}") v.smtpSenderAddress
  let (_, cmd) ← andReplaceAll fuel cmd (str "{SMTP_PASSWD}") v.smtpSenderPassword
  let (_, cmd) ← andReplaceAll fuel cmd (str "{SMTP_SENDER}") v.smtpSenderName
  let (_, cmd) ← andReplaceAll fuel cmd (str "{RECIPIENT_ADDRESS}") v.recipientAddress
  let (_, cmd) ← andReplaceAll fuel cmd (str "{RECIPIENT_SUBJECT}") v.recipientSubject
  let (_, cmd) ← andReplaceAll fuel cmd (str "{RECIPIENT_CONTENT}") v.recipientContent
  return cmd

/-! ### The function -/

section Function

variable {W : Type} (fuel hardwareConcurrency : ℕ) (system : Bytes → W → ℤ × W)

/-- `curl_cmd_impl::smtps_send_mail_by_template_future`, with the value of the future as result. The
loops of `find::and_replace_all` are granted `fuel` iterations. -/
def smtpsSendMailByTemplateFuture (templateHtml : Path) (templateTitle templateRecipient : Bytes)
    (templateLookAndReplace : List LookAndReplace)
    (smtpServer smtpPort smtpSenderAddress smtpSenderName smtpSenderPassword : Bytes) :
    Prog (Sys W) ℤ := do
  let file ← onDisk (IfStream.new templateHtml)
  if !file.good then
    return -1
  let html ← onDisk fun d => (file.rest d, d)
  let recipientContentHtml ← Prog.lift (andReplaceEach fuel templateLookAndReplace html)
  let cmd ← Prog.lift (smtpsCommand fuel ⟨smtpServer, smtpPort, smtpSenderAddress,
    smtpSenderPassword, smtpSenderName, templateRecipient, templateTitle, recipientContentHtml⟩)
  let status ← onLib (Prog.call (system (cString cmd)))
  if 2 ≤ hardwareConcurrency then
    return if status = 0 then 1 else -2
  else
    return if status = 0 then 1 else -3

end Function

/-! ### The placeholders -/

/-- The placeholders. -/
inductive Placeholder where
  | smtpServer
  | smtpPort
  | smtpUser
  | smtpPasswd
  | smtpSender
  | recipientAddress
  | recipientSubject
  | recipientContent
  deriving DecidableEq

namespace Placeholder

/-- The text of a placeholder. -/
def text : Placeholder → Bytes
  | smtpServer => str "{SMTP_SERVER}"
  | smtpPort => str "{SMTP_PORT}"
  | smtpUser => str "{SMTP_USER}"
  | smtpPasswd => str "{SMTP_PASSWD}"
  | smtpSender => str "{SMTP_SENDER}"
  | recipientAddress => str "{RECIPIENT_ADDRESS}"
  | recipientSubject => str "{RECIPIENT_SUBJECT}"
  | recipientContent => str "{RECIPIENT_CONTENT}"

/-- The placeholders in the order in which they are replaced. -/
def all : List Placeholder :=
  [smtpServer, smtpPort, smtpUser, smtpPasswd, smtpSender, recipientAddress, recipientSubject,
    recipientContent]

/-- The placeholders that are replaced before another. -/
def earlier (p : Placeholder) : List Placeholder := all.takeWhile fun p' => p' ≠ p

/-- The placeholders that are replaced after another. -/
def later (p : Placeholder) : List Placeholder := (all.dropWhile fun p' => p' ≠ p).tail

/-- The placeholders with replacements. -/
def table (f : Placeholder → Bytes) (ps : List Placeholder) : List (Bytes × Bytes) :=
  ps.map fun p => (p.text, f p)

end Placeholder

/-- The value of a placeholder. -/
def SmtpsFields.value (v : SmtpsFields) : Placeholder → Bytes
  | .smtpServer => v.smtpServer
  | .smtpPort => v.smtpPort
  | .smtpUser => v.smtpSenderAddress
  | .smtpPasswd => v.smtpSenderPassword
  | .smtpSender => v.smtpSenderName
  | .recipientAddress => v.recipientAddress
  | .recipientSubject => v.recipientSubject
  | .recipientContent => v.recipientContent

/-- What becomes of the value of a placeholder: later placeholders in it are replaced. -/
def SmtpsFields.filled (v : SmtpsFields) (p : Placeholder) : Bytes :=
  replaceEach (Placeholder.table v.value p.later) (v.value p)

/-- A text without placeholders. -/
def lit (s : String) : List (UInt8 ⊕ Placeholder) := (str s).map Sum.inl

/-- The template, cut at the placeholders. -/
def cmdPieces : List (UInt8 ⊕ Placeholder) :=
  lit "curl --ssl-reqd --url \"smtps://" ++ .inr .smtpServer :: lit ":" ++ .inr .smtpPort ::
  lit "\" \\\n--silent \\\n--user \"" ++ .inr .smtpUser :: lit ":" ++ .inr .smtpPasswd ::
  lit "\" \\\n--mail-from \"" ++ .inr .smtpUser ::
  lit "\" \\\n--mail-rcpt \"" ++ .inr .recipientAddress ::
  lit "\" \\\n--upload-file - << EOF\nFrom: " ++ .inr .smtpSender :: lit " <" ++ .inr .smtpUser ::
  lit ">\nTo: " ++ .inr .recipientAddress :: lit "\nSubject: " ++ .inr .recipientSubject ::
  lit "\nContent-Type: text/html; charset=\"UTF-8\"\n\n" ++ .inr .recipientContent :: lit "\n"

theorem render_cmdPieces : render Placeholder.text cmdPieces = cmdTemplate := by decide +kernel

namespace Placeholder

variable (p : Placeholder)

theorem mem_all : p ∈ all := by cases p <;> decide

theorem text_ne_nil : p.text ≠ [] := by cases p <;> decide

theorem eq_of_text_begins : ∀ p ∈ all, ∀ p' ∈ all, p.text <+: p'.text → p = p' := by
  decide

theorem all_eq : all = p.earlier ++ p :: p.later := by cases p <;> rfl

/-- No placeholder stands in one that is replaced after it. -/
theorem findFirst_of_earlier : ∀ p ∈ all, ∀ p' ∈ p.earlier, findFirst p'.text p.text = none := by
  decide

theorem fenced_cmdPieces : fenced p.text cmdPieces = true := by
  have hall : fenced (str "{ABCDEFGHIJKLMNOPQRSTUVWXYZ_}") cmdPieces = true := by decide +kernel
  refine fenced_of_subset ?_ ?_ hall
  · cases p <;> decide
  · cases p <;> decide

end Placeholder

/-- The placeholders of the template stand where its pieces say. -/
theorem pieces_cmdTemplate :
    pieces (Placeholder.all.map fun p => (p.text, p)) cmdTemplate = cmdPieces := by
  have htable : (Placeholder.all.map fun p => (p.text, p)) ≠ [] := List.cons_ne_nil _ _
  rw [← render_cmdPieces]
  refine pieces_render htable ?_ ?_ (fun p => List.mem_map_of_mem p.mem_all) ?_
  · exact List.forall_mem_map.2 fun p _ => p.text_ne_nil
  · refine List.forall_mem_map.2 fun p hp => List.forall_mem_map.2 fun p' hp' h => ?_
    rw [Placeholder.eq_of_text_begins p hp p' hp' h]
  · exact List.forall_mem_map.2 (List.forall_mem_map.2 fun p _ => p.fenced_cmdPieces)

/-! ### The command -/

section Command

variable (v : SmtpsFields)

/-- The replacements in the order of the code. -/
def SmtpsFields.datas : List LookAndReplace := Placeholder.all.map fun p => ⟨p.text, v.value p⟩

theorem smtpsCommand_eq_andReplaceEach (fuel : ℕ) :
    smtpsCommand fuel v = andReplaceEach fuel v.datas cmdTemplate := by
  simp only [smtpsCommand, andReplaceEach, SmtpsFields.datas, Placeholder.all, List.map_cons,
    List.map_nil, List.foldlM_cons, List.foldlM_nil, Option.bind_eq_bind, Option.bind_map]
  rfl

/-- A placeholder becomes its value, and later placeholders in the value become theirs. -/
theorem replaceEach_text (p : Placeholder) :
    replaceEach (Placeholder.table v.value Placeholder.all) p.text = v.filled p := by
  have hearlier : ∀ e ∈ Placeholder.table v.value p.earlier, ¬ e.1 <:+: p.text :=
    List.forall_mem_map.2 fun p' hp' =>
      findFirst_eq_none (Placeholder.findFirst_of_earlier p p.mem_all p' hp')
  have hself : replaceAll p.text (v.value p) p.text = v.value p := by
    simpa using replaceAll_append_self p.text_ne_nil (v.value p) []
  have htable : Placeholder.table v.value Placeholder.all =
      Placeholder.table v.value p.earlier ++
        (p.text, v.value p) :: Placeholder.table v.value p.later := by
    rw [Placeholder.table, Placeholder.all_eq p, List.map_append, List.map_cons]
    rfl
  rw [htable, replaceEach_append, replaceEach_eq_self hearlier, replaceEach_cons, hself]
  rfl

/-- **The command**, for all values: what becomes of them in the places of the template. -/
theorem smtpsCommand_eq :
    ∃ n, ∀ fuel ≥ n, smtpsCommand fuel v = some (render v.filled cmdPieces) := by
  have hlook : ∀ data ∈ v.datas, data.toLook ≠ [] :=
    List.forall_mem_map.2 fun p _ => p.text_ne_nil
  have htable : LookAndReplace.table v.datas = Placeholder.table v.value Placeholder.all :=
    List.map_map
  have hfenced : ∀ e ∈ Placeholder.table v.value Placeholder.all,
      e.1 ≠ [] ∧ fenced e.1 cmdPieces = true :=
    List.forall_mem_map.2 fun p _ => ⟨p.text_ne_nil, p.fenced_cmdPieces⟩
  obtain ⟨n, hn⟩ := andReplaceEach_eq hlook cmdTemplate
  refine ⟨n, fun fuel hfuel => ?_⟩
  rw [smtpsCommand_eq_andReplaceEach, hn fuel hfuel, htable, ← render_cmdPieces,
    replaceEach_render hfenced]
  simp only [replaceEach_text]

theorem substitute_cmdTemplate (f : Placeholder → Bytes) :
    substitute (Placeholder.table f Placeholder.all) cmdTemplate = render f cmdPieces := by
  rw [← pieces_cmdTemplate, ← substitute_map, List.map_map]
  rfl

/-- A value without later placeholders stays as it is. -/
theorem filled_eq_value {p : Placeholder} (h : ∀ p' ∈ p.later, ¬ p'.text <:+: v.value p) :
    v.filled p = v.value p :=
  replaceEach_eq_self (List.forall_mem_map.2 h)

end Command

/-! ### What is passed to the shell -/

section Run

variable {W : Type} (hardwareConcurrency : ℕ) (system : Bytes → W → ℤ × W)
  (templateHtml : Path) (templateTitle templateRecipient : Bytes)
  (templateLookAndReplace : List LookAndReplace)
  (smtpServer smtpPort smtpSenderAddress smtpSenderName smtpSenderPassword : Bytes)

/-- The content of the mail, for a template with a given text. -/
def filledContent (html : Bytes) : Bytes :=
  replaceEach (LookAndReplace.table templateLookAndReplace) html

/-- **What is passed to the shell.** When the template can be read and no string to look for is
empty, `system` is called once, with the command up to its first NUL. -/
theorem smtpsSendMail_apply {s : Sys W} (hgood : (IfStream.new templateHtml s.disk).1.good = true)
    (hlook : ∀ data ∈ templateLookAndReplace, data.toLook ≠ []) :
    ∃ n, ∀ fuel ≥ n,
      let v : SmtpsFields := ⟨smtpServer, smtpPort, smtpSenderAddress, smtpSenderPassword,
        smtpSenderName, templateRecipient, templateTitle,
        filledContent templateLookAndReplace (s.disk.content (cString templateHtml))⟩
      let called := system (cString (render v.filled cmdPieces)) s.lib
      smtpsSendMailByTemplateFuture fuel hardwareConcurrency system templateHtml templateTitle
          templateRecipient templateLookAndReplace smtpServer smtpPort smtpSenderAddress
          smtpSenderName smtpSenderPassword s =
        some (if called.1 = 0 then 1 else if 2 ≤ hardwareConcurrency then -2 else -3,
          { disk := (IfStream.new templateHtml s.disk).2, lib := called.2 }) := by
  obtain ⟨n₁, hcontent⟩ := andReplaceEach_eq hlook (s.disk.content (cString templateHtml))
  obtain ⟨n₂, hcommand⟩ := smtpsCommand_eq ⟨smtpServer, smtpPort, smtpSenderAddress,
    smtpSenderPassword, smtpSenderName, templateRecipient, templateTitle,
    filledContent templateLookAndReplace (s.disk.content (cString templateHtml))⟩
  refine ⟨max n₁ n₂, fun fuel hfuel => ?_⟩
  have hrest : (IfStream.new templateHtml s.disk).1.rest (IfStream.new templateHtml s.disk).2 =
      s.disk.content (cString templateHtml) := rfl
  have hhtml := hcontent fuel (by omega)
  have hcmd := hcommand fuel (by omega)
  rw [← filledContent] at hhtml
  simp only [smtpsSendMailByTemplateFuture, Prog.bind_apply, onDisk_apply, Option.bind_some, hgood,
    Bool.not_true, Bool.false_eq_true, if_false, hrest, Prog.lift_apply, hhtml, Option.map_some,
    hcmd, onLib_apply, Prog.call_apply]
  split_ifs <;> rfl

end Run

end Behh
