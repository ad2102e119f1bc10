import Behh.Communication.Smtps
import Behh.Library.ShellBounds
import Behh.Std.Text

/-!
# What the shell makes of the command

The command for curl is read by a shell: the arguments stand between double quotes, the mail in a
here-document whose delimiter is not quoted. Nothing is escaped on the way from the caller to the
shell. A value without meaning to the template, the shell and the header of the mail arrives as it
is; others change the command or the mail.

## Main definitions

* `SmtpsFields.message`, `SmtpsFields.command`: the mail and the command that is meant.
* `SmtpsFields.InertArguments`, `SmtpsFields.InertMail`, `SmtpsFields.Inert`: values without a
  meaning of their own.

## Main results

* `smtpsSendMail_inert`: what the shell reads for inert values.
* `smtpsSendMail_arrives_iff`: no other values arrive, unless they contain placeholders.
-/

namespace Behh

open Substitution Shell Shell.State

namespace SmtpsFields

variable (v : SmtpsFields)

/-- The header of the mail. -/
def header : Bytes :=
  str "From: " ++ v.smtpSenderName ++ str " <" ++ v.smtpSenderAddress ++ str ">\n" ++
  str "To: " ++ v.recipientAddress ++ str "\n" ++
  str "Subject: " ++ v.recipientSubject ++ str "\n" ++
  str "Content-Type: text/html; charset=\"UTF-8\"\n"

/-- The mail: the header, an empty line, and the content, with the line break of the template. -/
def message : Bytes := v.header ++ str "\n" ++ v.recipientContent ++ str "\n"

/-- The command that is meant. -/
def command : Command where
  words := [str "curl", str "--ssl-reqd",
    str "--url", str "smtps://" ++ v.smtpServer ++ str ":" ++ v.smtpPort,
    str "--silent",
    str "--user", v.smtpSenderAddress ++ str ":" ++ v.smtpSenderPassword,
    str "--mail-from", v.smtpSenderAddress,
    str "--mail-rcpt", v.recipientAddress,
    str "--upload-file", str "-"]
  input := some v.message

/-- Arguments without meaning to the shell. -/
structure InertArguments : Prop where
  /-- No argument contains a NUL. -/
  argumentNoNul : 0 ∉ v.smtpServer ∧ 0 ∉ v.smtpPort ∧ 0 ∉ v.smtpSenderAddress ∧
    0 ∉ v.smtpSenderPassword ∧ 0 ∉ v.recipientAddress
  /-- The server is verbatim in front of the colon. -/
  server : DoubleVerbatim v.smtpServer 0x3a
  /-- The port is verbatim in front of the quote. -/
  port : DoubleVerbatim v.smtpPort quote
  /-- The address of the sender is verbatim in front of a quote. -/
  senderAddress : DoubleVerbatim v.smtpSenderAddress quote
  /-- The password is verbatim in front of the quote. -/
  password : DoubleVerbatim v.smtpSenderPassword quote
  /-- The address of the recipient is verbatim in front of a quote. -/
  recipientAddress : DoubleVerbatim v.recipientAddress quote

/-- A mail without meaning to the shell, under a header of one line for each value. -/
structure InertMail : Prop where
  /-- Nothing in the mail contains a NUL. -/
  mailNoNul : 0 ∉ v.smtpSenderName ∧ 0 ∉ v.recipientSubject ∧ 0 ∉ v.recipientContent
  /-- The name of the sender is verbatim in front of the space. -/
  senderName : BodyVerbatim v.smtpSenderName space
  /-- The subject is verbatim in front of the line break. -/
  subject : BodyVerbatim v.recipientSubject newline
  /-- The content is verbatim in front of the line break. -/
  content : BodyVerbatim v.recipientContent newline
  /-- The values in the header have no line breaks. -/
  oneLine : newline ∉ v.smtpSenderName ∧ newline ∉ v.smtpSenderAddress ∧
    newline ∉ v.recipientAddress ∧ newline ∉ v.recipientSubject
  /-- No line of the content ends the here-document. -/
  noEnd : str "EOF" ∉ v.recipientContent.splitOn newline

/-- Values without meaning to the template, to the shell and to the header of the mail. -/
structure Inert : Prop extends InertArguments v, InertMail v where
  /-- No value contains a placeholder that is replaced later. -/
  plain : ∀ p, ∀ p' ∈ Placeholder.later p, ¬ p'.text <:+: v.value p

end SmtpsFields

theorem render_lit (f : Placeholder → Bytes) (s : String) : render f (lit s) = str s := by
  rw [lit]
  induction str s with
  | nil => rfl
  | cons c t ih => rw [List.map_cons, render_inl, ih]

/-- The command behind the quote of the first argument, with `rest` behind the arguments. -/
def quotedArguments (url user sender recipient rest : Text) : Text :=
  url ++ close (str "--silent \\\n--user \"") ++
    (user ++ close (str "--mail-from \"") ++
      (sender ++ close (str "--mail-rcpt \"") ++
        (recipient ++ close (str "--upload-file - << EOF\n") ++ rest)))

/-- The words of the command with these arguments. -/
def curlWords (url user sender recipient : Text) : List Text :=
  [str "curl", str "--ssl-reqd", str "--url", url, str "--silent", str "--user", user,
    str "--mail-from", sender, str "--mail-rcpt", recipient, str "--upload-file", str "-"]

theorem render_cmdPieces_eq (v : SmtpsFields) : render v.value cmdPieces =
    str "curl --ssl-reqd --url \"" ++
      quotedArguments (str "smtps://" ++ v.smtpServer ++ str ":" ++ v.smtpPort)
        (v.smtpSenderAddress ++ str ":" ++ v.smtpSenderPassword) v.smtpSenderAddress
        v.recipientAddress v.message := by
  have hurl : str "curl --ssl-reqd --url \"smtps://" =
    str "curl --ssl-reqd --url \"" ++ str "smtps://" := by decide
  have huser : str "\" \\\n--silent \\\n--user \"" =
    close (str "--silent \\\n--user \"") := by decide
  have hfrom : str "\" \\\n--mail-from \"" = close (str "--mail-from \"") := by decide
  have hrcpt : str "\" \\\n--mail-rcpt \"" = close (str "--mail-rcpt \"") := by decide
  have hfile : str "\" \\\n--upload-file - << EOF\nFrom: " =
    close (str "--upload-file - << EOF\n") ++ str "From: " := by decide
  have hto : str ">\nTo: " = str ">\n" ++ str "To: " := by decide
  have hsubject : str "\nSubject: " = str "\n" ++ str "Subject: " := by decide
  have htype : str "\nContent-Type: text/html; charset=\"UTF-8\"\n\n" =
      str "\n" ++ (str "Content-Type: text/html; charset=\"UTF-8\"\n" ++ str "\n") := by
    decide
  simp only [cmdPieces, render_append, render_inr, render_lit, SmtpsFields.value,
    SmtpsFields.message, SmtpsFields.header, quotedArguments, hurl, huser, hfrom, hrcpt, hfile,
    hto, hsubject, htype, List.append_assoc]

/-! ### The here-document -/

section Mail

variable {v : SmtpsFields}

theorem zero_notMem_message_iff (h : v.InertArguments) : 0 ∉ v.message ↔
    0 ∉ v.smtpSenderName ∧ 0 ∉ v.recipientSubject ∧ 0 ∉ v.recipientContent := by
  have hliteral : ∀ t ∈ [str "From: ", str " <", str ">\n", str "To: ", str "\n", str "Subject: ",
      str "Content-Type: text/html; charset=\"UTF-8\"\n"], (0 : UInt8) ∉ t := by decide
  simp only [List.forall_mem_cons] at hliteral
  obtain ⟨hfrom, hless, hgreater, hto, hnewline, hsubject, htype, -⟩ := hliteral
  obtain ⟨-, -, haddress, -, hrecipient⟩ := h.argumentNoNul
  simp only [SmtpsFields.message, SmtpsFields.header, List.mem_append, hfrom, hless, hgreater, hto,
    hnewline, hsubject, htype, haddress, hrecipient, false_or, or_false, not_or, and_assoc]

/-- What surrounds the values of the mail is verbatim in the here-document. -/
theorem bodyVerbatim_mail_iff (h : v.InertArguments) :
    BodyVerbatim (v.header ++ str "\n" ++ v.recipientContent) newline ↔
      BodyVerbatim v.smtpSenderName space ∧ BodyVerbatim v.recipientSubject newline ∧
        BodyVerbatim v.recipientContent newline := by
  have hliteral : ∀ t ∈ [str "From: ", str " <", str ">\n", str "To: ", str "\n", str "Subject: ",
      str "Content-Type: text/html; charset=\"UTF-8\"\n"],
      ∀ c ∈ t, c ∉ [dollar, backquote] ∧ c ≠ backslash := by decide +kernel
  simp only [List.forall_mem_cons] at hliteral
  obtain ⟨hfrom, hless, hgreater, hto, hnewline, hsubject, htype, -⟩ := hliteral
  have hmono : ∀ {t : Text} {next : UInt8}, DoubleVerbatim t quote → BodyVerbatim t next :=
    fun ht => ht.mono (by decide) (by decide) (by decide)
  simp only [SmtpsFields.header, List.append_assoc, BodyVerbatim, verbatim_append_iff]
  constructor
  · rintro ⟨-, hname, -, -, -, -, -, -, -, htitle, -, -, -, hcontent⟩
    exact ⟨hname, htitle, hcontent⟩
  · rintro ⟨hname, htitle, hcontent⟩
    exact ⟨verbatim_of_forall hfrom, hname, verbatim_of_forall hless, hmono h.senderAddress,
      verbatim_of_forall hgreater, verbatim_of_forall hto, hmono h.recipientAddress,
      verbatim_of_forall hnewline, verbatim_of_forall hsubject, htitle,
      verbatim_of_forall hnewline, verbatim_of_forall htype, verbatim_of_forall hnewline,
      hcontent⟩

/-- The header has four lines when the values in it have no line breaks. -/
theorem count_header_eq_iff (v : SmtpsFields) : v.header.count newline = 4 ↔
    newline ∉ v.smtpSenderName ∧ newline ∉ v.smtpSenderAddress ∧
      newline ∉ v.recipientAddress ∧ newline ∉ v.recipientSubject := by
  have hliteral : [str "From: ", str " <", str ">\n", str "To: ", str "\n", str "Subject: ",
      str "Content-Type: text/html; charset=\"UTF-8\"\n"].map (List.count newline) =
      [0, 0, 1, 0, 1, 0, 1] := by decide
  simp only [List.map_cons, List.map_nil, List.cons.injEq, and_true] at hliteral
  obtain ⟨hfrom, hless, hgreater, hto, hnewline, hsubject, htype⟩ := hliteral
  simp only [SmtpsFields.header, List.count_append, hfrom, hless, hgreater, hto, hnewline,
    hsubject, htype, ← List.count_eq_zero]
  omega

theorem splitOn_mail (h : v.header.count newline = 4) :
    (v.header ++ str "\n" ++ v.recipientContent).splitOn newline =
      (str "From: " ++ v.smtpSenderName ++ str " <" ++ v.smtpSenderAddress ++ str ">") ::
        (str "To: " ++ v.recipientAddress) :: (str "Subject: " ++ v.recipientSubject) ::
          str "Content-Type: text/html; charset=\"UTF-8\"" :: [] ::
            v.recipientContent.splitOn newline := by
  have hliteral : ∀ t ∈ [str "From: ", str " <", str ">", str "To: ", str "Subject: ",
      str "Content-Type: text/html; charset=\"UTF-8\""], newline ∉ t := by decide
  simp only [List.forall_mem_cons] at hliteral
  obtain ⟨hfrom, hless, hgreater, hto, hsubject, htype, -⟩ := hliteral
  obtain ⟨hname, haddress, hrecipient, htitle⟩ := (count_header_eq_iff v).1 h
  have hlines : v.header ++ str "\n" ++ v.recipientContent =
      (str "From: " ++ v.smtpSenderName ++ str " <" ++ v.smtpSenderAddress ++ str ">") ++ newline ::
        ((str "To: " ++ v.recipientAddress) ++ newline ::
          ((str "Subject: " ++ v.recipientSubject) ++ newline ::
            (str "Content-Type: text/html; charset=\"UTF-8\"" ++ newline ::
              ([] ++ newline :: v.recipientContent)))) := by
    simp [SmtpsFields.header, str]
  rw [hlines, List.splitOn_append_cons_self_of_not_mem, List.splitOn_append_cons_self_of_not_mem,
    List.splitOn_append_cons_self_of_not_mem, List.splitOn_append_cons_self_of_not_mem htype,
    List.splitOn_append_cons_self_of_not_mem List.not_mem_nil]
  · simp [hsubject, htitle]
  · simp [hto, hrecipient]
  · simp [hfrom, hname, hless, haddress, hgreater]

/-- Under four lines of header, only a line of the content can end the here-document. -/
theorem end_notMem_splitOn_mail_iff (h : v.header.count newline = 4) :
    str "EOF" ∉ (v.header ++ str "\n" ++ v.recipientContent).splitOn newline ↔
      str "EOF" ∉ v.recipientContent.splitOn newline := by
  have hfirst : str "From: " = 0x46 :: str "rom: " := by decide
  have hto : str "To: " = 0x54 :: str "o: " := by decide
  have hsubject : str "Subject: " = 0x53 :: str "ubject: " := by decide
  have hend : str "EOF" = 0x45 :: str "OF" := by decide
  have htype : str "EOF" ≠ str "Content-Type: text/html; charset=\"UTF-8\"" := by decide
  rw [splitOn_mail h]
  simp only [List.mem_cons, htype, false_or]
  simp [hfirst, hto, hsubject, hend]

/-- **The here-document.** The shell reads the mail as it is if and only if it has no NUL, is
verbatim, and has no line that ends it. -/
theorem readFrom_message_iff (v : SmtpsFields) (args : List Text) :
    readFrom ⟨[], str "curl" :: args, .body (str "EOF") [] []⟩ (cString v.message) =
        some [⟨str "curl" :: args, some v.message⟩] ↔
      0 ∉ v.message ∧ BodyVerbatim (v.header ++ str "\n" ++ v.recipientContent) newline ∧
        str "EOF" ∉ (v.header ++ str "\n" ++ v.recipientContent).splitOn newline := by
  have hmail : v.message = v.header ++ str "\n" ++ v.recipientContent ++ [newline] := rfl
  by_cases hnul : 0 ∈ v.message
  · -- a text that is cut off is too short
    refine iff_of_false (fun h => ?_) fun h => h.1 hnul
    have hlt := length_input_lt rfl h
    have hcut : (cString v.message).length ≤ v.message.length :=
      (List.takeWhile_prefix _).length_le
    simp only [Mode.bodyLength, List.length_nil] at hlt
    exact length_cString_eq_iff.1 (by omega) hnul
  · rw [cString_eq_self hnul, hmail]
    generalize v.header ++ str "\n" ++ v.recipientContent = mail at *
    have hread : readFrom ⟨[], str "curl" :: args, .body (str "EOF") [] []⟩ (mail ++ [newline]) =
        some [⟨str "curl" :: args, some (mail ++ [newline])⟩] ↔
        BodyVerbatim mail newline ∧ str "EOF" ∉ mail.splitOn newline :=
      readFrom_body_iff (by decide) (by decide) List.not_mem_nil
    rw [hread, ← hmail]
    exact (and_iff_right hnul).symm

end Mail

/-! ### The arguments -/

theorem separates_user : Separates (str "--silent \\\n--user \"") [str "--silent", str "--user"]
    (.double []) where
  command done words := by
    have hrun : run ⟨done, words, .command none⟩ (str "--silent \\\n--user \"") =
      some ⟨done, words ++ [str "--silent"] ++ [str "--user"], .double []⟩ := rfl
    rw [hrun, List.append_assoc, List.singleton_append]
  double _ _ _ := ⟨_, rfl, rfl, rfl⟩
  single _ _ _ := ⟨_, rfl, rfl, rfl⟩

theorem separates_mailFrom : Separates (str "--mail-from \"") [str "--mail-from"] (.double []) where
  command _ _ := rfl
  double _ _ _ := ⟨_, rfl, rfl, rfl⟩
  single _ _ _ := ⟨_, rfl, rfl, rfl⟩

theorem separates_mailRcpt : Separates (str "--mail-rcpt \"") [str "--mail-rcpt"] (.double []) where
  command _ _ := rfl
  double _ _ _ := ⟨_, rfl, rfl, rfl⟩
  single _ _ _ := ⟨_, rfl, rfl, rfl⟩

theorem separates_uploadFile : Separates (str "--upload-file - << EOF\n")
    [str "--upload-file", str "-"] (.body (str "EOF") [] []) where
  command done words := by
    have hrun : run ⟨done, words, .command none⟩ (str "--upload-file - << EOF\n") =
      some ⟨done, words ++ [str "--upload-file"] ++ [str "-"], .body (str "EOF") [] []⟩ := rfl
    rw [hrun, List.append_assoc, List.singleton_append]
  double _ _ _ := ⟨_, rfl, rfl, rfl⟩
  single _ _ _ := ⟨_, rfl, rfl, rfl⟩

/-- **The arguments, exactly.** When the shell reads a command with these arguments and a
here-document as long as what is left of the text, the arguments are verbatim. -/
theorem doubleVerbatim_of_readFrom {url user sender recipient rest input : Text}
    (hlong : rest.length ≤ input.length)
    (h : readFrom ⟨[], [str "curl", str "--ssl-reqd", str "--url"], .double []⟩
      (quotedArguments url user sender recipient rest) =
        some [⟨curlWords url user sender recipient, some input⟩]) :
    DoubleVerbatim url quote ∧ DoubleVerbatim user quote ∧ DoubleVerbatim sender quote ∧
      DoubleVerbatim recipient quote := by
  simp only [quotedArguments, readFrom_append, Option.bind_eq_some_iff] at h
  obtain ⟨s₁, h₁, s₂, h₂, s₃, h₃, s₄, h₄, h⟩ := h
  -- no command ends in front of the here-document
  have hdone₄ : s₄.done = [] := by
    have hlt := length_done_lt h (separates_uploadFile.begun (List.cons_ne_nil _ _) h₄)
    exact List.eq_nil_of_length_eq_zero (by simpa using hlt)
  have hdone₃ : s₃.done = [] := List.prefix_nil.1 (hdone₄ ▸ done_prefix_run h₄)
  have hdone₂ : s₂.done = [] := List.prefix_nil.1 (hdone₃ ▸ done_prefix_run h₃)
  have hdone₁ : s₁.done = [] := List.prefix_nil.1 (hdone₂ ▸ done_prefix_run h₂)
  have hgrows₁ := run_grows h₁ hdone₁
  have hgrows₂ := hgrows₁.trans (run_grows h₂ (hdone₂.trans hdone₁.symm))
  have hgrows₃ := hgrows₂.trans (run_grows h₃ (hdone₃.trans hdone₂.symm))
  have hne : ∀ {n : ℕ} {s : State}, Grows n ⟨[], [str "curl", str "--ssl-reqd", str "--url"],
      .double []⟩ s → s.words ≠ [] := by
    intro n s hgrows heq
    exact absurd (List.prefix_nil.1 (heq ▸ hgrows.words)) (List.cons_ne_nil _ _)
  -- the here-document is too long to be read from anywhere else
  have hbody : 0 < s₄.mode.bodyLength := by
    have hlt := length_input_lt hdone₄ h
    omega
  have hwords₄ := (words_eq_of_readFrom hdone₄ hbody h).symm
  obtain ⟨hwords₃, -, hrecipient⟩ := separates_uploadFile.argument [str "curl", str "--ssl-reqd",
    str "--url", url, str "--silent", str "--user", user, str "--mail-from", sender,
    str "--mail-rcpt"] h₄ hdone₄ (hne hgrows₃) hwords₄ (fun hnone => absurd hnone hbody.ne')
  obtain ⟨hwords₂, hmode₃, hsender⟩ := separates_mailRcpt.argument [str "curl", str "--ssl-reqd",
    str "--url", url, str "--silent", str "--user", user, str "--mail-from"] h₃ hdone₃
    (hne hgrows₂) hwords₃ (fun _ => by
      have hsize := hgrows₂.size
      rw [hwords₃]
      simp [State.size, Mode.wordLength, close, str] at hsize ⊢
      omega)
  obtain ⟨hwords₁, hmode₂, huser⟩ := separates_mailFrom.argument [str "curl", str "--ssl-reqd",
    str "--url", url, str "--silent", str "--user"] h₂ hdone₂ (hne hgrows₁) hwords₂ (fun _ => by
      have hsize := hgrows₁.size
      rw [hwords₂]
      simp [State.size, Mode.wordLength, close, str] at hsize ⊢
      omega)
  obtain ⟨-, hmode₁, hurl⟩ := separates_user.argument [str "curl", str "--ssl-reqd", str "--url"]
    h₁ hdone₁ (List.cons_ne_nil _ _) hwords₁ (fun _ => by
      rw [hwords₁]
      simp [State.size, Mode.wordLength, str]
      omega)
  exact ⟨hurl rfl, huser hmode₁, hsender hmode₂, hrecipient hmode₃⟩

/-! ### The command -/

theorem doubleVerbatim_pair_iff (t u : Text) : DoubleVerbatim (t ++ str ":" ++ u) quote ↔
    DoubleVerbatim t 0x3a ∧ DoubleVerbatim u quote := by
  have hcolon : DoubleVerbatim (str ":") (u.headD quote) := verbatim_of_forall (by decide +kernel)
  rw [DoubleVerbatim, List.append_assoc, verbatim_append_iff, verbatim_append_iff]
  exact and_congr_right fun _ => and_iff_right hcolon

theorem doubleVerbatim_url_iff (t u : Text) :
    DoubleVerbatim (str "smtps://" ++ t ++ str ":" ++ u) quote ↔
      DoubleVerbatim t 0x3a ∧ DoubleVerbatim u quote := by
  have hscheme : DoubleVerbatim (str "smtps://") (t.headD 0x3a) :=
    verbatim_of_forall (by decide +kernel)
  rw [doubleVerbatim_pair_iff, DoubleVerbatim, verbatim_append_iff]
  exact and_congr_left fun _ => and_iff_right hscheme

/-- What the shell reads when no NUL is in the arguments. -/
theorem parse_render (v : SmtpsFields) (h : 0 ∉ v.smtpServer ∧ 0 ∉ v.smtpPort ∧
    0 ∉ v.smtpSenderAddress ∧ 0 ∉ v.smtpSenderPassword ∧ 0 ∉ v.recipientAddress) :
    parse (cString (render v.value cmdPieces)) =
      readFrom ⟨[], [str "curl", str "--ssl-reqd", str "--url"], .double []⟩
        (quotedArguments (str "smtps://" ++ v.smtpServer ++ str ":" ++ v.smtpPort)
          (v.smtpSenderAddress ++ str ":" ++ v.smtpSenderPassword) v.smtpSenderAddress
          v.recipientAddress (cString v.message)) := by
  have hliteral : ∀ t ∈ [str "curl --ssl-reqd --url \"", str "smtps://", str ":",
      close (str "--silent \\\n--user \""), close (str "--mail-from \""),
      close (str "--mail-rcpt \""), close (str "--upload-file - << EOF\n")], (0 : UInt8) ∉ t := by
    decide +kernel
  simp only [List.forall_mem_cons] at hliteral
  obtain ⟨hcurl, hurl, hcolon, huser, hfrom, hrcpt, hfile, -⟩ := hliteral
  obtain ⟨hserver, hport, haddress, hpassword, hrecipient⟩ := h
  have hrun : run ⟨[], [], .command none⟩ (str "curl --ssl-reqd --url \"") =
      some ⟨[], [str "curl", str "--ssl-reqd", str "--url"], .double []⟩ := by decide
  rw [render_cmdPieces_eq, parse]
  simp only [quotedArguments, List.append_assoc, cString_append, hcurl, hurl, hcolon, huser, hfrom,
    hrcpt, hfile, hserver, hport, haddress, hpassword, hrecipient, not_false_eq_true]
  rw [run_append_of hrun, readFrom]

/-- A command that is read as meant has no NUL in its arguments, since none is passed on. -/
theorem zero_notMem_arguments {v : SmtpsFields}
    (h : parse (cString (render v.value cmdPieces)) = some [v.command]) :
    0 ∉ v.smtpServer ∧ 0 ∉ v.smtpPort ∧ 0 ∉ v.smtpSenderAddress ∧ 0 ∉ v.smtpSenderPassword ∧
      0 ∉ v.recipientAddress := by
  have hstart : Lacks 0 ⟨[], [], .command none⟩ :=
    ⟨fun _ hc => absurd hc List.not_mem_nil, fun _ hw => absurd hw List.not_mem_nil,
      fun _ hw => by cases hw⟩
  obtain ⟨hwords, -⟩ := lacks_of_readFrom hstart (by decide) (zero_notMem_cString _) h _
    List.mem_cons_self
  have hall : ∀ word ∈ v.command.words, (0 : UInt8) ∉ word := hwords
  simp only [SmtpsFields.command, List.forall_mem_cons, List.mem_append, not_or] at hall
  obtain ⟨-, -, -, hurl, -, -, huser, -, hsender, -, hrecipient, -⟩ := hall
  exact ⟨hurl.1.1.2, hurl.2, hsender, huser.2, hrecipient⟩

/-- **What arrives.** The shell reads the command that is meant, under four lines of header, if and
only if the arguments and the mail have no meaning of their own. -/
theorem parse_render_iff (v : SmtpsFields) :
    parse (cString (render v.value cmdPieces)) = some [v.command] ∧ v.header.count newline = 4 ↔
      v.InertArguments ∧ v.InertMail := by
  have hread := readFrom_message_iff v v.command.words.tail
  have hurl := doubleVerbatim_url_iff v.smtpServer v.smtpPort
  have huser := doubleVerbatim_pair_iff v.smtpSenderAddress v.smtpSenderPassword
  have hargs : v.InertArguments → parse (cString (render v.value cmdPieces)) =
      readFrom ⟨[], v.command.words, .body (str "EOF") [] []⟩ (cString v.message) := by
    intro h
    have hsender : DoubleVerbatim v.smtpSenderAddress 0x3a :=
      h.senderAddress.mono (by decide) (List.Subset.refl _) (List.Subset.refl _)
    rw [parse_render v h.argumentNoNul, quotedArguments,
      separates_user.readFrom_double (hurl.2 ⟨h.server, h.port⟩),
      separates_mailFrom.readFrom_double (huser.2 ⟨hsender, h.password⟩),
      separates_mailRcpt.readFrom_double h.senderAddress,
      separates_uploadFile.readFrom_double h.recipientAddress]
    rfl
  constructor
  · rintro ⟨hparse, hheader⟩
    have harguments : v.InertArguments := by
      have hnul := zero_notMem_arguments hparse
      have hcut : (cString v.message).length ≤ v.message.length :=
        (List.takeWhile_prefix _).length_le
      rw [parse_render v hnul] at hparse
      obtain ⟨hfirst, hsecond, hthird, hfourth⟩ := doubleVerbatim_of_readFrom hcut hparse
      exact ⟨hnul, (hurl.1 hfirst).1, (hurl.1 hfirst).2, hthird, (huser.1 hsecond).2, hfourth⟩
    rw [hargs harguments] at hparse
    obtain ⟨hnul, hverbatim, hlines⟩ := hread.1 hparse
    obtain ⟨hname, htitle, hcontent⟩ := (bodyVerbatim_mail_iff harguments).1 hverbatim
    exact ⟨harguments, (zero_notMem_message_iff harguments).1 hnul, hname, htitle, hcontent,
      (count_header_eq_iff v).1 hheader, (end_notMem_splitOn_mail_iff hheader).1 hlines⟩
  · rintro ⟨harguments, hmail⟩
    have hheader := (count_header_eq_iff v).2 hmail.oneLine
    refine ⟨?_, hheader⟩
    rw [hargs harguments]
    exact hread.2 ⟨(zero_notMem_message_iff harguments).2 hmail.mailNoNul,
      (bodyVerbatim_mail_iff harguments).2 ⟨hmail.senderName, hmail.subject, hmail.content⟩,
      (end_notMem_splitOn_mail_iff hheader).2 hmail.noEnd⟩

/-! ### The function -/

section Function

variable {W : Type} (hardwareConcurrency : ℕ) (system : Bytes → W → ℤ × W) (templateHtml : Path)
  (templateLookAndReplace : List LookAndReplace) (v : SmtpsFields)

/-- The text that is passed to `system`, for values without placeholders. -/
theorem smtpsSendMail_plain {s : Sys W}
    (hgood : (IfStream.new templateHtml s.disk).1.good = true)
    (hlook : ∀ data ∈ templateLookAndReplace, data.toLook ≠ [])
    (hcontent : v.recipientContent =
      filledContent templateLookAndReplace (s.disk.content (cString templateHtml)))
    (hplain : ∀ p, ∀ p' ∈ Placeholder.later p, ¬ p'.text <:+: v.value p) : ∃ n, ∀ fuel ≥ n,
      let called := system (cString (render v.value cmdPieces)) s.lib
      smtpsSendMailByTemplateFuture fuel hardwareConcurrency system templateHtml
          v.recipientSubject v.recipientAddress templateLookAndReplace v.smtpServer v.smtpPort
          v.smtpSenderAddress v.smtpSenderName v.smtpSenderPassword s =
        some (if called.1 = 0 then 1 else if 2 ≤ hardwareConcurrency then -2 else -3,
          ⟨(IfStream.new templateHtml s.disk).2, called.2⟩) := by
  have hfilled : v.filled = v.value := funext fun p => filled_eq_value v (hplain p)
  have happly := smtpsSendMail_apply hardwareConcurrency system templateHtml v.recipientSubject
    v.recipientAddress templateLookAndReplace v.smtpServer v.smtpPort v.smtpSenderAddress
    v.smtpSenderName v.smtpSenderPassword hgood hlook
  rw [← hcontent] at happly
  simpa only [hfilled] using happly

/-- **Inert values arrive.** When the template can be read, no string to look for is empty, and the
values have no meaning of their own, the function passes one text to `system`, and the shell reads
it as the command for curl with the values as they are and the mail as its input. -/
theorem smtpsSendMail_inert {s : Sys W}
    (hgood : (IfStream.new templateHtml s.disk).1.good = true)
    (hlook : ∀ data ∈ templateLookAndReplace, data.toLook ≠ [])
    (hcontent : v.recipientContent =
      filledContent templateLookAndReplace (s.disk.content (cString templateHtml))) (h : v.Inert) :
    ∃ text, parse text = some [v.command] ∧ ∃ n, ∀ fuel ≥ n,
      smtpsSendMailByTemplateFuture fuel hardwareConcurrency system templateHtml
          v.recipientSubject v.recipientAddress templateLookAndReplace v.smtpServer v.smtpPort
          v.smtpSenderAddress v.smtpSenderName v.smtpSenderPassword s =
        some (if (system text s.lib).1 = 0 then 1 else if 2 ≤ hardwareConcurrency then -2 else -3,
          ⟨(IfStream.new templateHtml s.disk).2, (system text s.lib).2⟩) :=
  ⟨cString (render v.value cmdPieces),
    ((parse_render_iff v).2 ⟨h.toInertArguments, h.toInertMail⟩).1,
    smtpsSendMail_plain hardwareConcurrency system templateHtml templateLookAndReplace v hgood
      hlook hcontent h.plain⟩

end Function

/-- The fields of a greeting, with a given content. -/
def greeting (content : Bytes) : SmtpsFields :=
  ⟨str "smtp.a.org", str "465", str "ann@a.org", str "p4ss", str "Ann", str "bob@b.org",
    str "Hello", content⟩

/-- No value of a greeting is a placeholder. In its content nothing is replaced later. -/
theorem plain_greeting (content : Bytes) :
    ∀ p, ∀ p' ∈ Placeholder.later p, ¬ p'.text <:+: (greeting content).value p := by
  have hall : ∀ p ∈ Placeholder.all, ∀ p' ∈ Placeholder.later p,
      findFirst p'.text ((greeting []).value p) = none := by decide
  intro p p' hp'
  cases p with
  | recipientContent => cases hp'
  | _ => exact findFirst_eq_none (hall _ (Placeholder.mem_all _) p' hp')

theorem inert_greeting : (greeting (str "<p>Hi Bob!</p>")).Inert where
  argumentNoNul := by decide
  server := by decide
  port := by decide
  senderAddress := by decide
  password := by decide
  recipientAddress := by decide
  mailNoNul := by decide
  senderName := by decide
  subject := by decide
  content := by decide
  oneLine := by decide
  noEnd := by decide
  plain := plain_greeting _

/-- A greeting that is sent. -/
theorem smtpsSendMail_inert_greeting : ∃ text,
    parse text = some [(greeting (str "<p>Hi Bob!</p>")).command] ∧ ∃ n, ∀ fuel ≥ n,
      smtpsSendMailByTemplateFuture fuel 4 (fun _ (w : Unit) => (0, w)) (str "mail.html")
          (str "Hello") (str "bob@b.org") [⟨str "{NAME}", str "Bob"⟩] (str "smtp.a.org")
          (str "465") (str "ann@a.org") (str "Ann") (str "p4ss")
          ⟨Disk.single (str "mail.html") (str "<p>Hi {NAME}!</p>"), ()⟩ =
        some (1, ⟨(IfStream.new (str "mail.html")
          (Disk.single (str "mail.html") (str "<p>Hi {NAME}!</p>"))).2, ()⟩) :=
  smtpsSendMail_inert 4 (fun _ (w : Unit) => (0, w)) (str "mail.html")
    [⟨str "{NAME}", str "Bob"⟩] (greeting (str "<p>Hi Bob!</p>")) (by decide)
    (by decide) (by decide +kernel) inert_greeting

/-- A line `EOF` in the content ends the mail, and the shell runs what follows. -/
theorem parse_reboot :
    parse (cString (render (greeting (str "Hi\nEOF\nreboot")).filled cmdPieces)) =
      some [(greeting (str "Hi")).command, ⟨[str "reboot"], none⟩] := by
  decide +kernel

/-- Not every content arrives: what follows a line `EOF` is run as a second command. -/
theorem not_onlyCurl : ¬ ∀ (v : SmtpsFields) (fuel : ℕ) (cmd : Bytes),
    smtpsCommand fuel v = some cmd → parse (cString cmd) = some [v.command] := by
  intro h
  obtain ⟨n, hn⟩ := smtpsCommand_eq (greeting (str "Hi\nEOF\nreboot"))
  have hread := h _ n _ (hn n (Nat.le_refl n))
  rw [parse_reboot] at hread
  exact absurd (congrArg (Option.map List.length) hread) (by decide)

end Behh
