import VertexVeil.Artifacts

/-!
# The artifact bundle

Which receipt of a log becomes `completion_receipt.json`.
-/

namespace VertexVeil

/-- The receipt extracted from a log: of a finalized log, the last one of the final round. -/
def pickFinalReceipt (log : CoordinationLog) : Option CompletionReceiptRecord :=
  if log.finalized then log.receipts.reverse.find? (fun r => r.round = log.finalRound) else none

/-- `run.rs`: what `demo` and `verify` extract. -/
def Run.pickFinalReceipt (log : CoordinationLog) : Option CompletionReceiptRecord := VertexVeil.pickFinalReceipt log

/-- `node.rs`: what a node's own run extracts. -/
def Node.pickFinalReceipt (log : CoordinationLog) : Option CompletionReceiptRecord := VertexVeil.pickFinalReceipt log

end VertexVeil
