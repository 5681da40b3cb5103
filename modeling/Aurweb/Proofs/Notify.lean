/-
Who receives a notification.

Both ways of sending write the same headers, and no `Bcc` is among them: a mail program that
reads its recipients from there is not told of those, while the SMTP server is given them as a
list.  `sameReceivers_iff` is exactly when that makes no difference.  Only the two notifications
about a request have hidden copies, for the accounts that hide their address.
-/
import Aurweb.Notify
import Aurweb.Proofs.WellFormed
import Mathlib.Data.List.Forall2

namespace Aurweb.Notify

open Users (Account)

/-- How a list of addresses is written in a header, and read there by `sendmail -t`. -/
structure HeaderSyntax where
  isAddress : String → Prop
  addresses : String → List String
  addresses_join : ∀ l, l ≠ [] → (∀ a ∈ l, isAddress a) → addresses (join l) = l

/-- The headers that `sendmail -t` delivers to. -/
def recipientHeaders : List String := ["To", "Cc", "Bcc"]

def HeaderSyntax.recipients (mail : HeaderSyntax) (msg : Message) : List String :=
  (msg.headers.filter fun h => recipientHeaders.contains h.1).flatMap fun h => mail.addresses h.2

/-- What the SMTP server delivers to. -/
def SmtpCommand.recipients : SmtpCommand → List String
  | .sendmail _ deliverTo _ => deliverTo
  | _ => []

/-- The addresses that receive a message. -/
def Delivery.receivers (mail : HeaderSyntax) : Delivery → List String
  | .program _ input => mail.recipients input
  | .smtp session => session.flatMap (·.recipients)

/-- Each message goes to the same addresses through the program and through SMTP. -/
def SameReceivers (mail : HeaderSyntax) (cfg : Settings) (date : String) (n : Notification) :
    Prop :=
  List.Forall₂ (fun d e => ∀ a, a ∈ d.receivers mail ↔ a ∈ e.receivers mail)
    (n.send cfg date) (n.send { cfg with sendmail := "" } date)

/-! ### Two ways of sending -/

section

variable {mail : HeaderSyntax} {cfg : Settings} {date : String} {n : Notification}

theorem HeaderSyntax.addresses_self {a : String} (ha : mail.isAddress a) :
    mail.addresses a = [a] := by
  have hjoin := mail.addresses_join [a] (List.cons_ne_nil _ _) (by simpa using ha)
  rwa [join, String.intercalate_singleton] at hjoin

/-- No thread adds a recipient. -/
theorem Thread.filter_headers (thread : Thread) :
    thread.headers.filter (fun h => recipientHeaders.contains h.1) = [] := by
  cases thread <;> simp [Thread.headers, recipientHeaders]

/-- The program finds the recipient and the copies that are not hidden. -/
theorem recipients_message {to_ : String} (lang : String) (hto : mail.isAddress to_)
    (hcc : ∀ a ∈ n.cc, mail.isAddress a) :
    mail.recipients (n.message cfg date to_ lang) = to_ :: n.cc := by
  have hcopies : ((if n.cc.isEmpty then [] else [("Cc", join n.cc)]).filter fun h =>
      recipientHeaders.contains h.1).flatMap (fun h => mail.addresses h.2) = n.cc := by
    by_cases hempty : n.cc = []
    · simp [hempty]
    · rw [if_neg (by simpa using hempty)]
      simpa [recipientHeaders] using mail.addresses_join n.cc hempty hcc
  unfold HeaderSyntax.recipients Notification.message
  simp only [List.filter_append, List.flatMap_append, Thread.filter_headers, hcopies]
  simp [mimeText, recipientHeaders, HeaderSyntax.addresses_self hto]

/-- The server is told of all of them. -/
theorem receivers_smtp (deliverTo : List String) (msg : Message) :
    (Delivery.smtp (smtpSession cfg deliverTo msg)).receivers mail = deliverTo := by
  unfold Delivery.receivers smtpSession
  have hstarttls : (if cfg.smtpUseStarttls = true then
      [SmtpCommand.ehlo, .starttls, .ehlo] else []).flatMap (·.recipients) = [] := by
    split <;> rfl
  have hlogin : (if cfg.smtpUser ≠ "" ∧ cfg.smtpPassword ≠ "" then
      [SmtpCommand.login cfg.smtpUser cfg.smtpPassword] else []).flatMap (·.recipients) = [] := by
    split <;> rfl
  simp only [List.flatMap_append, hstarttls, hlogin]
  simp [SmtpCommand.recipients]

/-- The program and the server agree on a message if no copy of it is hidden from someone who is
not also written to openly. -/
theorem receivers_iff {r : String × String} (hto : mail.isAddress r.1)
    (hcc : ∀ a ∈ n.cc, mail.isAddress a) (argv : List String) (cfg' : Settings) (msg : Message) :
    (∀ a, a ∈ (Delivery.program argv (n.message cfg date r.1 r.2)).receivers mail ↔
        a ∈ (Delivery.smtp (smtpSession cfg' ([r.1] ++ n.cc ++ n.bcc) msg)).receivers mail) ↔
      ∀ a ∈ n.bcc, a = r.1 ∨ a ∈ n.cc := by
  have hopen : (Delivery.program argv (n.message cfg date r.1 r.2)).receivers mail =
      r.1 :: n.cc := recipients_message r.2 hto hcc
  rw [hopen, receivers_smtp]
  constructor
  · intro hsame a ha
    have hboth : a ∈ [r.1] ++ n.cc ++ n.bcc := List.mem_append_right _ ha
    exact List.mem_cons.mp ((hsame a).mpr hboth)
  · intro hbcc a
    rw [List.singleton_append, List.mem_append]
    constructor
    · exact Or.inl
    · intro ha
      rcases ha with ha | ha
      · exact ha
      · exact List.mem_cons.mpr (hbcc a ha)

theorem sameReceivers_iff_each (hprogram : cfg.sendmail ≠ "") :
    SameReceivers mail cfg date n ↔
      ∀ r ∈ n.recipients, ∀ a,
        a ∈ (Delivery.program [cfg.sendmail, "-t", "-oi"]
            (n.message cfg date r.1 r.2)).receivers mail ↔
          a ∈ (Delivery.smtp (smtpSession { cfg with sendmail := "" } ([r.1] ++ n.cc ++ n.bcc)
            (n.message { cfg with sendmail := "" } date r.1 r.2))).receivers mail := by
  unfold SameReceivers Notification.send
  rw [List.forall₂_map_left_iff, List.forall₂_map_right_iff, List.forall₂_same]
  simp only [if_pos hprogram, ne_eq, not_true_eq_false, if_false]

end

/-! ### A hidden requester -/

/-- Nothing in an address is read as a part of the list. -/
def Plain (a : String) : Prop := ∀ c ∈ a.toList, c ≠ ',' ∧ c ≠ ' '

theorem filter_join {l : List String} (h : ∀ a ∈ l, Plain a) :
    (join l).toList.filter (· ≠ ' ') = [','].intercalate (l.map String.toList) := by
  have hself : ∀ a : String, Plain a → a.toList.filter (· ≠ ' ') = a.toList := by
    intro a ha
    exact List.filter_eq_self.mpr fun c hc => by simpa using (ha c hc).2
  have hsep : (", ".toList).filter (· ≠ ' ') = [','] := by decide
  induction l with
  | nil => rfl
  | cons a l ih =>
      have hrest := ih fun b hb => h b (List.mem_cons_of_mem _ hb)
      cases l with
      | nil =>
          rw [join, String.intercalate_singleton, hself a (h a (List.mem_cons_self ..)),
            List.map_singleton, List.intercalate_singleton]
      | cons b l =>
          rw [join, String.intercalate_cons_cons, String.toList_append, String.toList_append,
            List.filter_append, List.filter_append, hself a (h a (List.mem_cons_self ..)), hsep]
          rw [join] at hrest
          rw [hrest]
          exact List.intercalate_cons_cons.symm

/-- Lists of plain addresses, read from comma to comma. -/
def plainMail : HeaderSyntax where
  isAddress := Plain
  addresses value := ((value.toList.filter (· ≠ ' ')).splitOn ',').map String.ofList
  addresses_join l hne hl := by
    have hcomma : ∀ cs ∈ l.map String.toList, ',' ∉ cs := by
      intro cs hcs hmem
      obtain ⟨a, ha, rfl⟩ := List.mem_map.mp hcs
      exact (hl a ha ',' hmem).1 rfl
    rw [filter_join hl, List.splitOn_intercalate ',' hcomma (by simpa using hne), List.map_map]
    exact List.map_id'' (fun a => String.ofList_toList) l

/-- A request that `alice`, who hides her address, has filed on `carol`'s package base. -/
def hiddenRequest : Db :=
  { smallSite with
    packageRequests := [
      { id := 5, reqType := .orphan, packageBaseID := some 4, packageBaseName := "foo"
        mergeBaseName := none, usersID := some 1, comments := "abandoned", closureComment := ""
        requestTS := 0, closedTS := none, closedUID := none, status := .pending }]
    nextID := 6 }

def hiddenAccounts : List Account :=
  [{ toUser := account 1 .user "alice", hideEmail := true },
    { toUser := account 3 .user "carol" }]

/-- What is sent about the request. -/
def closedNotification : Notification where
  reason := "RequestClose"
  recipients := [("aur-requests@lists.archlinux.org", "en")]
  cc := ["carol@example.org"]
  bcc := ["alice@example.org"]
  headers := .reply "<pkg-request-5@aur.archlinux.org>"
  text := { subject := id, bodyFmt := id }

def localMail : Settings where
  sender := "notify@aur.archlinux.org"
  replyTo := "noreply@aur.archlinux.org"
  sendmail := "/usr/bin/sendmail"
  smtpServer := "localhost"
  smtpPort := 25
  smtpUseSsl := false
  smtpUseStarttls := false
  smtpUser := ""
  smtpPassword := ""
  smtpTimeout := 60

/-! ### The same receivers -/

/-- What a class adds to its recipients: the copies of a request, or none. -/
theorem Action.copies {cfg : Config} {accounts : List Account} {db : Db} {requestML : String}
    {text : Action → Text} {action : Action} {n : Notification}
    (h : action.notification cfg accounts db requestML text = some n) :
    n.cc = [] ∧ n.bcc = [] ∨ ∃ reqID, n.recipients = [(requestML, "en")] ∧
      n.cc = requestCc cfg accounts db reqID ∧ n.bcc = requestBcc cfg accounts db reqID := by
  cases action with
  | sendResetkey | welcome | verification | verificationReminder =>
      obtain ⟨_, -, rfl⟩ := Option.map_eq_some_iff.mp h
      exact Or.inl ⟨rfl, rfl⟩
  | comment | update | flag | adopt | disown | comaintainerAdd | comaintainerRemove =>
      obtain ⟨_, -, hfound⟩ := Option.bind_eq_some_iff.mp h
      obtain ⟨_, -, hn⟩ := Option.bind_eq_some_iff.mp hfound
      obtain rfl := Option.some.inj hn
      exact Or.inl ⟨rfl, rfl⟩
  | delete =>
      obtain ⟨_, -, hfound⟩ := Option.bind_eq_some_iff.mp h
      obtain ⟨_, -, hold⟩ := Option.bind_eq_some_iff.mp hfound
      obtain ⟨_, -, hn⟩ := Option.bind_eq_some_iff.mp hold
      obtain rfl := Option.some.inj hn
      exact Or.inl ⟨rfl, rfl⟩
  | requestOpen uid reqID =>
      obtain ⟨_, -, hfound⟩ := Option.bind_eq_some_iff.mp h
      obtain ⟨_, -, hbase⟩ := Option.bind_eq_some_iff.mp hfound
      obtain ⟨_, -, hn⟩ := Option.bind_eq_some_iff.mp hbase
      obtain rfl := Option.some.inj hn
      exact Or.inr ⟨reqID, rfl, rfl, rfl⟩
  | requestClose uid reqID =>
      obtain ⟨_, -, hn⟩ := Option.bind_eq_some_iff.mp h
      obtain rfl := Option.some.inj hn
      exact Or.inr ⟨reqID, rfl, rfl, rfl⟩
  | voteReminder =>
      obtain rfl := Option.some.inj h
      exact Or.inl ⟨rfl, rfl⟩

/-- A notification reaches the same addresses in both cases unless an account that a request
concerns hides an address that no other one shows. -/
theorem Action.reachesSame_iff {cfg : Config} {accounts : List Account} {db : Db}
    {requestML : String} {text : Action → Text} {action : Action} {n : Notification}
    (h : action.notification cfg accounts db requestML text = some n) {mail : HeaderSyntax}
    {settings : Settings} {date : String} (hprogram : settings.sendmail ≠ "")
    (hto : ∀ r ∈ n.recipients, mail.isAddress r.1) (hcc : ∀ a ∈ n.cc, mail.isAddress a) :
    SameReceivers mail settings date n ↔ ∀ a ∈ n.bcc, a = requestML ∨ a ∈ n.cc := by
  rw [sameReceivers_iff_each hprogram]
  rcases Action.copies h with ⟨-, hbcc⟩ | ⟨reqID, hrecipients, -, -⟩
  · refine iff_of_true (fun r hr => ?_) (by simp [hbcc])
    exact (receivers_iff (hto r hr) hcc _ _ _).mpr (by simp [hbcc])
  · rw [hrecipients] at hto ⊢
    rw [List.forall_mem_singleton] at hto ⊢
    exact receivers_iff hto hcc _ _ _

end Aurweb.Notify
