import CoinSelection.Exchange.Scalar
import CoinSelection.Exchange.Selection
import CoinSelection.Fee

/-!
# Fee estimates, from text to text

A request gives the size of a transaction, its virtual size where that is
known, and a fee rate.  The response is the fee.
-/

namespace CoinSelection

open Json

/-! ## Requests -/

/-- A request to estimate the fee of a transaction. -/
structure FeeRequest where
  size : UInt64 := 0
  virtualSize : Option UInt64 := none
  rate : FeeRate := default
  deriving DecidableEq

namespace FeeRequest

/-- The fields of a request. -/
def fields : List (Record.Field FeeRequest) :=
  [.required "size" Outline.readWord
      fun request size => { request with size },
    .optional "vsize" (Outline.readOptional Outline.readWord)
      fun request virtualSize => { request with virtualSize },
    .required "feeRate" FeeRate.ofJson
      fun request rate => { request with rate }]

/-- Read a request. -/
def ofJson : Outline → Except Fault FeeRequest :=
  Record.read fields {}

end FeeRequest

/-! ## Responses -/

/-- The fee of a transaction. -/
structure FeeResponse where
  fee : UInt64 := 0
  deriving DecidableEq

namespace FeeResponse

/-- Write a response. -/
def toJson (response : FeeResponse) : Value :=
  .object [("fee", wordToJson response.fee)]

/-- The fields of a response. -/
def fields : List (Record.Field FeeResponse) :=
  [.required "fee" Outline.readWord
      fun response fee => { response with fee }]

/-- Read a response. -/
def ofJson : Outline → Except Fault FeeResponse :=
  Record.read fields {}

end FeeResponse

/-! ## Answers -/

/-- Answer a request whose rate is valid. -/
def FeeRequest.answer (request : FeeRequest) : Outcome FeeResponse := do
  request.rate.validate
  let fee ←
    transactionFee request.size.toNat (request.virtualSize.map UInt64.toNat)
      request.rate.toSatPerKvb
  pure { fee := UInt64.ofNat fee }

/-- Answer the text of a request with the text of a response. -/
def answerFee (text : String) : Outcome String := do
  let request ← requireJson FeeRequest.ofJson text
  let response ← request.answer
  pure response.toJson.render

end CoinSelection
