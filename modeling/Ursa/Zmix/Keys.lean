import Ursa.Math.Codec
import Ursa.Zmix.Bbs

namespace Ursa

-- `signatures/bbs/keys.rs`: the byte format of a public key.

namespace ZmixResult

variable {Kind : Type}

-- `&data[start..stop]`
def slice (data : List UInt8) (start stop : ℕ) : ZmixResult Kind (List UInt8) :=
  if start ≤ stop ∧ stop ≤ data.length then .ok <| data.block start (stop - start)
  else .error <| .panic "range end index out of range for slice"

end ZmixResult

-- `u32::to_be_bytes`
def u32ToBeBytes (n : UInt32) : List UInt8 :=
  [(n >>> 24).toUInt8, (n >>> 16).toUInt8, (n >>> 8).toUInt8, n.toUInt8]

-- `u32::from_be_bytes`, `as usize`
def u32FromBeBytes (b₀ b₁ b₂ b₃ : UInt8) : ℕ :=
  ((b₀.toNat * 256 + b₁.toNat) * 256 + b₂.toNat) * 256 + b₃.toNat

-- `to_bytes` and `from_bytes` of `G1` and `G2`, with the errors of `amcl_wrapper`.
structure GroupCodecs (C : Curve) (SerzDeserzError : Type) where
  g1 : FixedCodec (PointG1 C) SerzDeserzError
  g2 : FixedCodec (PointG2 C) SerzDeserzError

namespace Bbs

open ZmixResult

variable {C : Curve} {SerzDeserzError : Type} (codecs : GroupCodecs C SerzDeserzError)

namespace PublicKey

def toBytes (self : PublicKey C) : List UInt8 :=
  let out := codecs.g2.encode self.w
  let out := out ++ codecs.g1.encode self.h0
  let out := out ++ u32ToBeBytes (UInt32.ofNat self.h.length)
  self.h.foldl (fun out p => out ++ codecs.g1.encode p) out

-- `from_bytes(&data[index..(index + size)])?`
def readPoint {G : Type} (codec : FixedCodec G SerzDeserzError) (data : List UInt8) (index : ℕ) :
    ZmixResult SerzDeserzError G := do
  let bytes ← slice data index (index + codec.size)
  (codec.decode bytes).mapError .err

-- `u32::from_be_bytes([data[index], data[index + 1], data[index + 2], data[index + 3]])`
def readU32 (data : List UInt8) (index : ℕ) : ZmixResult SerzDeserzError ℕ := do
  let b₀ ← nth data index
  let b₁ ← nth data (index + 1)
  let b₂ ← nth data (index + 2)
  let b₃ ← nth data (index + 3)
  pure <| u32FromBeBytes b₀ b₁ b₂ b₃

-- The state of the loop over the generators.
structure Reading (C : Curve) where
  index : ℕ
  h : List (PointG1 C)

def Reading.next (data : List UInt8) (self : Reading C) :
    ZmixResult SerzDeserzError (Reading C) := do
  let p ← readPoint codecs.g1 data self.index
  pure { index := self.index + codecs.g1.size, h := self.h ++ [p] }

def fromBytes (data : List UInt8) : ZmixResult SerzDeserzError (PublicKey C) := do
  let index := 0
  let w ← readPoint codecs.g2 data index
  let index := index + codecs.g2.size
  let h0 ← readPoint codecs.g1 data index
  let index := index + codecs.g1.size
  let hSize ← readU32 data index
  let index := index + 4
  -- `Vec::with_capacity(h_size)` only reserves the memory.
  let reading ← (List.range hSize).foldlM
    (fun (reading : Reading C) _ => reading.next codecs data) { index, h := [] }
  pure { w, h0, h := reading.h }

end PublicKey

end Bbs
end Ursa
