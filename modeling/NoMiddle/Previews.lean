import NoMiddle.Library.Latest
import NoMiddle.DbViews

/-! The message a chat is previewed with, beside the chat itself. The preview is asked for in
descending order of time and the chat in ascending order, and a time is a whole second. -/
namespace NoMiddle.Previews
open Library Text DbManager

/-- What a chat is previewed with is its last message, or nothing if it has none. -/
def Shows (preview : Option Message) (chat : List Message) : Prop := preview = chat.getLast?

/-- The chat's latest second belongs to one message. -/
def OneLatest (query : Query) (store : Store) : Prop :=
  Latest.Single (·.timestamp) (store.messages.rows.filter query.selects)

theorem rows_distinct (messages : Messages) : messages.rows.Nodup :=
  .of_map _ messages.unique

theorem latest_iff {query : Query} (sorted : query.sorted = true) (store : Store) :
    Shows (query.latest store.messages) (query.rows store.messages) ↔ OneLatest query store := by
  have distinct : (store.messages.rows.filter query.selects).Nodup :=
    (rows_distinct store.messages).filter _
  have chat : query.rows store.messages =
      Latest.ascending (·.timestamp) (store.messages.rows.filter query.selects) := if_pos sorted
  have preview : query.latest store.messages =
      (Latest.descending (·.timestamp) (store.messages.rows.filter query.selects)).head? := rfl
  rw [Shows, chat, preview, eq_comm]
  exact Latest.last_eq_first_iff distinct

/-- A contact is previewed with the last message of the chat with it, and a group with its
last message, exactly where no other message of the chat has the same second. -/
theorem preview_last_iff (now : Int) (selfId : Str) (store : Store) :
    (∀ info ∈ (Call.exec now store (.getContactsWithLatestMessage selfId)).1,
      (Shows info.latestMessage
        (Call.exec now store (.getMessages (.between selfId info.contact.contactId))).1 ↔
        OneLatest (.between selfId info.contact.contactId) store)) ∧
    ∀ groupId, (Shows (Call.exec now store (.getLastMessageForGroup groupId)).1
      (Call.exec now store (.getMessages (.forGroup groupId))).1 ↔
        OneLatest (.forGroup groupId) store) := by
  constructor
  · intro info member
    obtain ⟨contact, _, rfl⟩ := List.mem_map.mp member
    exact latest_iff rfl store
  · intro groupId
    exact latest_iff rfl store

/-- Two messages to one contact, and two in one group, of the same second. -/
def hurried : Store :=
  let sent (id groupId : String) : Message := ⟨str id, str "me", str "you", str groupId, str id,
    [], 0, 7, 0, 0, 1, 0⟩
  { Store.initial with
    contacts := upsertContact (str "you") (str "You") (str "host") .empty
    messages := addMessage (sent "4" "g") (addMessage (sent "3" "g")
      (addMessage (sent "2" "") (addMessage (sent "1" "") .empty))) }

theorem hurried_differs :
    (∃ info ∈ (Call.exec 0 hurried (.getContactsWithLatestMessage (str "me"))).1,
      ¬Shows info.latestMessage
        (Call.exec 0 hurried (.getMessages (.between (str "me") info.contact.contactId))).1) ∧
    ¬Shows (Call.exec 0 hurried (.getLastMessageForGroup (str "g"))).1
      (Call.exec 0 hurried (.getMessages (.forGroup (str "g")))).1 := by
  unfold Shows
  decide +kernel

end NoMiddle.Previews
