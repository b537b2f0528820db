import NoMiddle.MessageDelivery

/-! One turn of the worker's loop. Nothing it decides later is read again: each of
its four lists is as old as the query that filled it. -/
namespace NoMiddle.RetryWorker
open Library Text DbManager Node MessageDelivery

-- The times are 64-bit integers in the source, whose difference is this one unless it overflows.
def dayLimit : Int := 86400

def retryPendingMessage (currentTime : Int) (msg : Message) : Proc Unit := do
  if !(← retryDeliverMessage msg) then
    if currentTime - msg.timestamp > dayLimit then
      markFailed msg.messageId

def retryPendingEdit (currentTime : Int) (msg : Message) : Proc Unit := do
  if !(← retryMessageEdit msg) then
    if msg.editedAt ≠ 0 ∧ currentTime - msg.editedAt > dayLimit then
      markEditFailed msg.messageId

def retryPendingDelete (currentTime : Int) (msg : Message) : Proc Unit := do
  if !(← retryMessageDelete msg) then
    if msg.deletedAt ≠ 0 ∧ currentTime - msg.deletedAt > dayLimit then
      markDeleteFailed msg.messageId

def retryPendingGroupUpdate (u : GroupUpdate) : Proc Unit := do
  let _ ← retryGroupUpdate u

def retryPass : Proc Unit := do
  let pendingMessages ← getPendingMessages
  let pendingEdits ← getPendingEdits
  let pendingGroupUpdates ← call .getPendingGroupUpdates
  pendingGroupUpdates.forM retryPendingGroupUpdate
  let pendingDeletes ← getPendingDeletes
  let currentTime ← time
  pendingMessages.forM (retryPendingMessage currentTime)
  pendingEdits.forM (retryPendingEdit currentTime)
  pendingDeletes.forM (retryPendingDelete currentTime)

end NoMiddle.RetryWorker
