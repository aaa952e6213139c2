import Bleep.Bytes
import Bleep.Library.RangeCheck
import Bleep.Zkp.BaseField

namespace Bleep

def traceWidth : Nat := 48
def minTraceLength : Nat := 32
def maxBlockTransactions : U32 := 4096

def colBlockIndex : Nat := 0
def colEpochId : Nat := 1
def colTxCount : Nat := 2
def colBlocksPerEpoch : Nat := 3
def colSigCount : Nat := 16
def colBatchSeqId : Nat := 17
def colEpochRemainder : Nat := 18
def colEpochRemainderGap : Nat := 19
def colTxCountGap : Nat := 20
def colBlocksPerEpochInverse : Nat := 21
def colRangeBitsStart : Nat := 22
def colRangeBitsEnd : Nat := 37
def colRangeValue : Nat := 38
def colReservedStart : Nat := 39
def colReservedEnd : Nat := 47
def numRangeLimbs : Nat := 23

/-- The columns `first..=last` of a source loop. -/
def columns (first last : Nat) : List Nat := List.range' first (last + 1 - first)

def bytesHi (hash : Hash32) : BaseElement := (Words.fromLeBytes (hash.toList.take 16) : Nat)

def bytesLo (hash : Hash32) : BaseElement := (Words.fromLeBytes (hash.toList.drop 16) : Nat)

structure ExtendedBlockPublicInputs where
  blockIndex : U64
  epochId : U64
  txCount : U32
  blocksPerEpoch : U64
  merkleRootHash : Hash32
  validatorPkHash : Hash32
  skSeedHash : Hash32
  blockHash : Hash32
  smtRoot : Hash32
  sigCommitmentRoot : Hash32
  sigCount : U32
  batchSeqId : U64
  deriving DecidableEq

namespace ExtendedBlockPublicInputs

variable (inputs : ExtendedBlockPublicInputs)

def toElements : List BaseElement :=
  [(inputs.blockIndex.toNat : BaseElement),
    (inputs.epochId.toNat : BaseElement),
    (inputs.txCount.toNat : BaseElement),
    (inputs.blocksPerEpoch.toNat : BaseElement),
    bytesHi inputs.merkleRootHash, bytesLo inputs.merkleRootHash,
    bytesHi inputs.validatorPkHash, bytesLo inputs.validatorPkHash,
    bytesHi inputs.skSeedHash, bytesLo inputs.skSeedHash,
    bytesHi inputs.smtRoot, bytesLo inputs.smtRoot,
    bytesHi inputs.blockHash, bytesLo inputs.blockHash,
    bytesHi inputs.sigCommitmentRoot, bytesLo inputs.sigCommitmentRoot,
    (inputs.sigCount.toNat : BaseElement),
    (inputs.batchSeqId.toNat : BaseElement)]

/-- The metadata relations the AIR is documented to enforce. -/
def isConsistent : Bool :=
  inputs.blocksPerEpoch != 0
    && inputs.txCount == inputs.sigCount
    && decide (inputs.txCount ≤ maxBlockTransactions)
    && decide (inputs.sigCount ≤ maxBlockTransactions)
    && inputs.batchSeqId == inputs.blockIndex
    && inputs.epochId == inputs.blockIndex / inputs.blocksPerEpoch

/-- The three locals which both the AIR constructor and the trace builder
derive from the public inputs. -/
def epochRemainder : U64 :=
  if inputs.blocksPerEpoch = 0 then 0 else inputs.blockIndex % inputs.blocksPerEpoch

def epochRemainderGap : U64 :=
  Words.saturatingSub inputs.blocksPerEpoch (Words.saturatingAdd inputs.epochRemainder 1)

def txCountGap : U64 :=
  Words.saturatingSub (maxBlockTransactions.setWidth 64) (inputs.txCount.setWidth 64)

end ExtendedBlockPublicInputs

def pushU64Limbs (value : U64) : List BaseElement :=
  [0, 16, 32, 48].map fun shift => (((value >>> shift) &&& 0xffff).toNat : BaseElement)

def pushU32Limbs (value : U32) : List BaseElement :=
  [0, 16].map fun shift => (((value >>> shift) &&& 0xffff).toNat : BaseElement)

def rangeValues (inputs : ExtendedBlockPublicInputs) (epochRemainder epochRemainderGap txCountGap : U64) :
    List BaseElement :=
  pushU64Limbs inputs.blockIndex
    ++ pushU64Limbs inputs.epochId
    ++ pushU32Limbs inputs.txCount
    ++ pushU64Limbs inputs.blocksPerEpoch
    ++ pushU32Limbs inputs.sigCount
    ++ pushU64Limbs inputs.batchSeqId
    ++ [(epochRemainder.toNat : BaseElement), (epochRemainderGap.toNat : BaseElement), (txCountGap.toNat : BaseElement)]

/-- The AIR instance the verifier builds from the public inputs. The
context (degrees, options) only configures the proof system and is left out. -/
structure ExtendedBlockValidityAir where
  pubInputs : ExtendedBlockPublicInputs
  rangeValues : List BaseElement

abbrev Row := Nat → BaseElement

structure Assertion where
  column : Nat
  step : Nat
  value : BaseElement

namespace ExtendedBlockValidityAir

def new (inputs : ExtendedBlockPublicInputs) : ExtendedBlockValidityAir where
  pubInputs := inputs
  rangeValues := Bleep.rangeValues inputs inputs.epochRemainder inputs.epochRemainderGap inputs.txCountGap

/-- The loop of the source over the bit columns, with its doubling weight. -/
def reconstructed (current : Row) : BaseElement :=
  ((columns colRangeBitsStart colRangeBitsEnd).foldl
    (fun (sum, weight) column => (sum + current column * weight, weight + weight)) (0, 1)).1

def evaluateTransition (current next : Row) : List BaseElement :=
  (List.range 18).map (fun column => next column - current column)
    ++ (columns colEpochRemainder colBlocksPerEpochInverse).map (fun column => next column - current column)
    ++ (columns colRangeBitsStart colRangeBitsEnd).map (fun column => current column * (current column - 1))
    ++ [current colRangeValue - reconstructed current,
      current colBlockIndex - current colEpochId * current colBlocksPerEpoch - current colEpochRemainder,
      current colEpochRemainder + current colEpochRemainderGap + 1 - current colBlocksPerEpoch,
      current colTxCount + current colTxCountGap - (maxBlockTransactions.toNat : BaseElement),
      current colTxCount - current colSigCount,
      current colBatchSeqId - current colBlockIndex,
      current colBlocksPerEpoch * current colBlocksPerEpochInverse - 1]
    ++ (columns colReservedStart colReservedEnd).map (fun column => next column - current column)

def getAssertions (air : ExtendedBlockValidityAir) : List Assertion :=
  (air.pubInputs.toElements.zipIdx.map fun (value, column) => ⟨column, 0, value⟩)
    ++ (air.rangeValues.zipIdx.map fun (value, row) => ⟨colRangeValue, row, value⟩)
    ++ ([8, 14, 22].flatMap fun row =>
      (columns (colRangeBitsStart + 13) colRangeBitsEnd).map fun column => ⟨column, row, 0⟩)
    ++ ((columns colReservedStart colReservedEnd).map fun column => ⟨column, 0, 0⟩)

end ExtendedBlockValidityAir

/-- An execution trace: `row i column` for the first `length` rows. -/
structure TraceTable where
  length : Nat
  row : Nat → Row

/-- What the proof system checks of a trace: a power-of-two length, every
transition constraint on all rows but the last, and every assertion. -/
structure ValidTrace (inputs : ExtendedBlockPublicInputs) (trace : TraceTable) : Prop where
  power : ∃ k, trace.length = 2 ^ k
  long : minTraceLength ≤ trace.length
  transitions : ∀ i, i + 1 < trace.length →
    ∀ result ∈ ExtendedBlockValidityAir.evaluateTransition (trace.row i) (trace.row (i + 1)), result = 0
  assertions : ∀ a ∈ (ExtendedBlockValidityAir.new inputs).getAssertions, trace.row a.step a.column = a.value

end Bleep
