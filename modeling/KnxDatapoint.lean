import KnxDatapoint.Session
import KnxDatapoint.Json.Document
import KnxDatapoint.Proofs.Rounding.Ranks
import KnxDatapoint.Proofs.Rounding.Whole
import KnxDatapoint.Proofs.Rounding.Close
import KnxDatapoint.Proofs.Single.Rational
import KnxDatapoint.Proofs.Single.Operations
import KnxDatapoint.Proofs.Single.Whole
import KnxDatapoint.Proofs.Single.Pattern
import KnxDatapoint.Proofs.ShortFloat.Search
import KnxDatapoint.Proofs.ShortFloat.Optimal
import KnxDatapoint.Proofs.ShortFloat.Value
import KnxDatapoint.Proofs.ShortFloat.Word
import KnxDatapoint.Proofs.ShortFloat.Reduced
import KnxDatapoint.Proofs.ShortFloat.Embedding
import KnxDatapoint.Proofs.ShortFloat.Tolerance
import KnxDatapoint.Proofs.Codec.Result
import KnxDatapoint.Proofs.Codec.Scaled
import KnxDatapoint.Proofs.Codec.Float
import KnxDatapoint.Proofs.Codec.Within
import KnxDatapoint.Proofs.Codec.Relay
import KnxDatapoint.Proofs.Codec.Settled
import KnxDatapoint.Proofs.Codec.Order
import KnxDatapoint.Proofs.Codec.Handover
import KnxDatapoint.Proofs.Codec.Narrow
import KnxDatapoint.Proofs.Codec.Steps
import KnxDatapoint.Proofs.Codec.Mirror
import KnxDatapoint.Proofs.Codec.Closest
import KnxDatapoint.Proofs.Codec.Verdict
import KnxDatapoint.Proofs.Session.Holders
import KnxDatapoint.Proofs.Session.Slots
import KnxDatapoint.Proofs.Session.Sent
import KnxDatapoint.Proofs.Reading.Text
import KnxDatapoint.Proofs.Decimal.Places
import KnxDatapoint.Proofs.Reading.Distinct
import KnxDatapoint.Proofs.Reading.Equality
import KnxDatapoint.Proofs.Session.Alike
import KnxDatapoint.Proofs.Session.Records
import KnxDatapoint.Proofs.Decimal.Digits
import KnxDatapoint.Proofs.Decimal.Shortest
import KnxDatapoint.Proofs.Json.Numeral
import KnxDatapoint.Proofs.Json.Written
import KnxDatapoint.Proofs.Json.Token
import KnxDatapoint.Proofs.Json.Tree
import KnxDatapoint.Proofs.Json.Document
