import Bleep.Crypto
import Bleep.Library.OrderedStore
import Bleep.Library.Results

namespace Bleep.Economics

open HashTable Words Results OrderedStore

inductive OracleSource
  | chainlink (feed : String)
  | pyth (feed : String)
  | custom (source : Bytes)

inductive OracleError
  | operatorNotRegistered
  | insufficientConfidence
  | noDataForAsset
  | insufficientSources
  | invalidSignature

structure PriceUpdate where
  source : OracleSource
  asset : String
  price : U128
  timestamp : U64
  confidenceBps : U16
  operatorId : Bytes
  signature : Bytes

/-- A text or key with its length in front, in big-endian order. -/
def beLengthPrefixed (bytes : Bytes) : Bytes := (leBytes 8 bytes.length).reverse ++ bytes

def OracleSource.tagged : OracleSource → Bytes
  | chainlink feed => 0 :: beLengthPrefixed (utf8 feed)
  | pyth feed => 1 :: beLengthPrefixed (utf8 feed)
  | custom source => 2 :: beLengthPrefixed source

namespace PriceUpdate

def isFresh (update : PriceUpdate) (currentTimestamp maxAgeSeconds : U64) : Bool :=
  saturatingSub currentTimestamp update.timestamp < maxAgeSeconds

def oracleSigningMessage (update : PriceUpdate) : Bytes :=
  utf8 "BLEEP_ORACLE_PRICE_V1:" ++ beLengthPrefixed update.operatorId ++ beLengthPrefixed (utf8 update.asset)
    ++ update.source.tagged ++ leBytes 16 update.price.toNat ++ le64 update.timestamp
    ++ leBytes 2 update.confidenceBps.toNat

end PriceUpdate

structure AggregatedPrice where
  asset : String
  medianPrice : U128
  meanPrice : U128
  confidenceBps : U16
  sourceCount : U32
  timestamp : U64
  aggregationHash : Bytes

def AggregatedPrice.computeHash (sha256 : Bytes → Hash32) (price : AggregatedPrice) : Bytes :=
  (sha256 (utf8 price.asset ++ leBytes 16 price.medianPrice.toNat ++ leBytes 16 price.meanPrice.toNat
    ++ leBytes 2 price.confidenceBps.toNat ++ le32 price.sourceCount ++ le64 price.timestamp)).toList

structure OracleOperator where
  operatorId : Bytes
  updatesSubmitted : U64
  acceptedUpdates : U64
  rejectedUpdates : U64

structure OracleBridgeEngine where
  priceUpdates : HashMap String (List PriceUpdate)
  aggregatedPrices : HashMap String AggregatedPrice
  operators : HashMap Bytes OracleOperator

namespace OracleBridgeEngine

def genesis : OracleBridgeEngine := ⟨∅, ∅, ∅⟩

def validSignature (sphincs : Sphincs) (operator : OracleOperator) (update : PriceUpdate) : Bool :=
  update.signature ≠ [] && operator.operatorId = update.operatorId && (sphincs.publicKey operator.operatorId).isOk
    && (sphincs.detachedSignature update.signature).isOk
    && sphincs.verifyDetachedSignature update.signature update.oracleSigningMessage operator.operatorId

/-- A bad signature is counted against the operator. -/
def submitPriceUpdate (sphincs : Sphincs) (self : OracleBridgeEngine) (update : PriceUpdate) :
    Except OracleError Unit × OracleBridgeEngine :=
  match self.operators.lookup update.operatorId with
  | none => (.error .operatorNotRegistered, self)
  | some operator =>
    if 5000 < update.confidenceBps then (.error .insufficientConfidence, self)
    else if validSignature sphincs operator update = false then
      (.error .invalidSignature, { self with
        operators := self.operators.insert update.operatorId { operator with
          updatesSubmitted := operator.updatesSubmitted + 1
          rejectedUpdates := operator.rejectedUpdates + 1 } })
    else
      (.ok (), { self with
        priceUpdates := self.priceUpdates.insert update.asset
          ((self.priceUpdates.lookup update.asset).getD [] ++ [update])
        operators := self.operators.insert update.operatorId { operator with
          updatesSubmitted := operator.updatesSubmitted + 1
          acceptedUpdates := operator.acceptedUpdates + 1 } })

/-- The newest fresh update of each operator; on a tie the later one. -/
def newestByOperator (updates : List PriceUpdate) (currentTimestamp maxAgeSeconds : U64) : HashMap Bytes PriceUpdate :=
  (updates.filter fun update => update.isFresh currentTimestamp maxAgeSeconds).foldl
    (fun newest update =>
      if (newest.lookup update.operatorId).all fun current => current.timestamp ≤ update.timestamp then
        newest.insert update.operatorId update
      else newest) ∅

/-- The number of sources is narrowed to 16 bits before it divides. -/
def aggregatePrices (sha256 : Bytes → Hash32) (self : OracleBridgeEngine) (asset : String)
    (currentTimestamp maxAgeSeconds : U64) : Except (Failure OracleError) (AggregatedPrice × OracleBridgeEngine) := do
  let updates ← okOr (self.priceUpdates.lookup asset) (.error .noDataForAsset)
  let freshUpdates := (scanFrom (newestByOperator updates currentTimestamp maxAgeSeconds) []).map Prod.snd
  ensure (3 ≤ freshUpdates.length) (.error .insufficientSources)
  let prices := (freshUpdates.map PriceUpdate.price).insertionSort (· ≤ ·)
  let medianPrice := prices.getD (prices.length / 2) 0
  let meanPrice := prices.foldl (· + ·) 0 / BitVec.ofNat 128 prices.length
  let confidence : U32 := (freshUpdates.map fun update => update.confidenceBps.setWidth 32).foldl (· + ·) 0
  let sources : U16 := BitVec.ofNat 16 freshUpdates.length
  ensure (sources ≠ 0) (.panic "attempt to divide by zero")
  let price : AggregatedPrice :=
    ⟨asset, medianPrice, meanPrice, confidence.setWidth 16 / sources, BitVec.ofNat 32 freshUpdates.length,
      currentTimestamp, []⟩
  let price := { price with aggregationHash := price.computeHash sha256 }
  return (price, { self with aggregatedPrices := self.aggregatedPrices.insert asset price })

end OracleBridgeEngine

end Bleep.Economics
