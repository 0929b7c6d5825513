import RecruitingOs.Domain.Models
import RecruitingOs.Lib.IsoTime
import Mathlib.Data.List.Sort

/-!
# Messages as sources

What `GmailConnector.toSource` and `GroupMeConnector.syncGroup` make of a message of
their provider.  A body and an attachment are the decoded data.
-/

namespace RecruitingOs

/-- A header or a property that is there. -/
def optField (key : String) (value : Option String) : List (String × Json) :=
  (value.map fun text => (key, Json.str text)).toList

/-! ### Gmail -/

/-- A part of a message, in the order of `walkParts`. -/
structure GmailPart where
  mimeType : String
  filename : Option String
  /-- The text of `body.data`. -/
  data : Option String
  /-- The bytes of the attachment `body.attachmentId`, in base64. -/
  attachment : Option String
deriving Repr, DecidableEq

/-- A message as `/messages/{id}?format=full` answers it. -/
structure GmailMessage where
  id : String
  threadId : Option String
  headers : List (String × String)
  parts : List GmailPart
  snippet : Option String
  internalDate : ℕ
deriving Repr, DecidableEq

/-- Inside a tag the characters since its `<`, newest first; `none` outside. -/
def stripTagsFrom : Option (List Char) → List Char → List Char
  | none, [] => []
  | some tag, [] => '<' :: tag.reverse
  | none, c :: rest => if c = '<' then stripTagsFrom (some []) rest else c :: stripTagsFrom none rest
  | some tag, c :: rest =>
      if c = '>' then
        (if tag = [] then ['<', '>'] else [' ']) ++ stripTagsFrom none rest
      else stripTagsFrom (some (c :: tag)) rest

/-- `.replace(/<[^>]+>/g, ' ')`. -/
def stripTags (html : String) : String := String.ofList (stripTagsFrom none html.toList)

example : stripTags "<p>Due <b>Friday</b> <> 5 < 6" = " Due  Friday  <> 5 < 6" := by decide

namespace GmailMessage

/-- `header(hs, name)`. -/
def header (msg : GmailMessage) (name : String) : Option String :=
  (msg.headers.find? fun h => h.1.toLower = name.toLower).map Prod.snd

/-- `toSource(orgId, msg)`. -/
def toSource (digest : String → String) (orgId : String) (msg : GmailMessage) (now : ℤ) :
    SourceItem :=
  let bodies (mimeType : String) :=
    msg.parts.filterMap fun p => if p.mimeType = mimeType then p.data.filter (· ≠ "") else none
  let texts := bodies "text/plain"
  let htmls := (bodies "text/html").map stripTags
  let image (p : GmailPart) : Option Json :=
    if "image/".toList.isPrefixOf p.mimeType.toList then
      p.attachment.map fun bytes => .obj
        ([("type", .str "image"), ("base64", .str bytes), ("mimeType", .str p.mimeType)] ++
          optField "alt" p.filename)
    else none
  { id := stableId digest "src" ("gmail:" ++ msg.id)
    tenantId := none
    contributorUserId := none
    organizationId := orgId
    sourceType := .gmail
    externalId := some msg.id
    url := some ("https://mail.google.com/mail/#all/" ++ msg.id)
    title := msg.header "Subject"
    rawText := ((texts.head?.or htmls.head?).or msg.snippet).getD ""
    media := msg.parts.filterMap image
    publishedAt :=
      if msg.internalDate = 0 then none else some (IsoTime.toISOString msg.internalDate)
    fetchedAt := IsoTime.toISOString now
    metadata := some (.obj
      (optField "from" (msg.header "From") ++ optField "to" (msg.header "To") ++
        optField "threadId" msg.threadId)) }

end GmailMessage

/-! ### GroupMe -/

/-- An attachment of a GroupMe message. -/
structure GroupMeAttachment where
  type : String
  url : Option String
deriving Repr, DecidableEq

/-- A message as `/groups/{id}/messages` answers it. -/
structure GroupMeMessage where
  id : String
  createdAt : ℕ
  name : Option String
  text : Option String
  userId : Option String
  attachments : List GroupMeAttachment
deriving Repr, DecidableEq

namespace GroupMeMessage

/-- The source that `syncGroup` pushes for a message. -/
def toSource (digest : String → String) (orgId groupId : String) (m : GroupMeMessage) (now : ℤ) :
    SourceItem :=
  let image (a : GroupMeAttachment) : Option Json :=
    if a.type = "image" then
      (a.url.filter (· ≠ "")).map fun url => .obj [("type", .str "image"), ("url", .str url)]
    else none
  { id := stableId digest "src" ("groupme:" ++ groupId ++ ":" ++ m.id)
    tenantId := none
    contributorUserId := none
    organizationId := orgId
    sourceType := .groupme
    externalId := some (groupId ++ ":" ++ m.id)
    url := some ("https://groupme.com/chats/" ++ groupId)
    title := some ((m.name.filter (· ≠ "")).elim "GroupMe message" ("GroupMe — " ++ ·))
    rawText := m.text.getD ""
    media := m.attachments.filterMap image
    publishedAt := some (IsoTime.toISOString (m.createdAt * 1000))
    fetchedAt := IsoTime.toISOString now
    metadata := some (.obj
      ([("groupId", .str groupId), ("messageId", .str m.id)] ++ optField "senderId" m.userId)) }

/-- `msgs.slice().sort((a, b) => a.created_at - b.created_at)`. -/
def sorted (msgs : List GroupMeMessage) : List GroupMeMessage :=
  msgs.insertionSort fun a b => a.createdAt ≤ b.createdAt

theorem mem_sorted {msgs : List GroupMeMessage} {m : GroupMeMessage} :
    m ∈ sorted msgs ↔ m ∈ msgs :=
  List.mem_insertionSort _

/-- The last of the sorted messages is the newest. -/
theorem createdAt_le_last {msgs : List GroupMeMessage} {m last : GroupMeMessage}
    (hm : m ∈ msgs) (hlast : (sorted msgs).getLast? = some last) :
    m.createdAt ≤ last.createdAt := by
  have hsorted : (sorted msgs).Pairwise fun a b => a.createdAt ≤ b.createdAt := by
    have htrans : IsTrans GroupMeMessage fun a b => a.createdAt ≤ b.createdAt :=
      ⟨fun _ _ _ => le_trans⟩
    have htotal : Std.Total fun a b : GroupMeMessage => a.createdAt ≤ b.createdAt :=
      ⟨fun _ _ => le_total _ _⟩
    exact List.pairwise_insertionSort _ msgs
  obtain ⟨front, hfront⟩ := List.getLast?_eq_some_iff.mp hlast
  have hmem : m ∈ front ++ [last] := by
    rw [← hfront]
    exact mem_sorted.mpr hm
  rw [hfront] at hsorted
  rcases List.mem_append.mp hmem with hm | hm
  · exact (List.pairwise_append.mp hsorted).2.2 m hm last List.mem_cons_self
  · rw [List.mem_singleton.mp hm]

end GroupMeMessage

end RecruitingOs
