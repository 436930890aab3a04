import TriTip.AddrMan.Serialize
import TriTip.Lib.LittleEndian

/-!
# The address manager: an encoding of the values in its file

The stream format on disk: integers low byte first, the sixteen bytes of an address as they are, the
port high byte first, an address preceded by a version and its time and services, a key preceded by
its length in one byte. It gives back every value it is given (`PeersCodec.disk_roundTrips`).
-/

namespace TriTip

namespace PeersCodec

/-- An encoding that gives back every value. -/
structure RoundTrips (c : PeersCodec) : Prop where
  byte : ∀ b, c.byte.RoundTrips b
  int : ∀ n, c.int.RoundTrips n
  int64 : ∀ n, c.int64.RoundTrips n
  address : ∀ a, c.address.RoundTrips a
  netAddr : ∀ a, c.netAddr.RoundTrips a

/-- The version that `CLIENT_VERSION` writes before an address. -/
def addressVersion : Int32 := 89900

def netAddrCodec : Codec CNetAddr where
  write a := (Codec.bytes 16).write a.ip
  read := do
    let ip ← (Codec.bytes 16).read
    pure ⟨ip⟩
  thrown a _ := a

def addressCodec : Codec CAddress where
  write a := Codec.int32.write addressVersion ++ (Codec.uint32.write a.nTime ++
    (Codec.uint64.write a.nServices ++ ((Codec.bytes 16).write a.ip ++
      (Codec.uint8.write (a.port / 256).toUInt8 ++ Codec.uint8.write a.port.toUInt8))))
  read := do
    let _ ← Codec.int32.read
    let nTime ← Codec.uint32.read
    let nServices ← Codec.uint64.read
    let ip ← (Codec.bytes 16).read
    let high ← Codec.uint8.read
    let low ← Codec.uint8.read
    pure { ip, port := high.toUInt16 * 256 + low.toUInt16, nServices, nTime }
  thrown a _ := a

/-- A vector is cleared before its length is read. -/
def keyCodec : Codec (List UInt8) where
  write k := Codec.uint8.write (UInt8.ofNat k.length) ++ k
  read := do
    let nSize ← Codec.uint8.read
    Codec.uint8.read.many nSize.toNat
  thrown _ _ := []

def disk : PeersCodec :=
  ⟨Codec.uint8, keyCodec, Codec.int32, Codec.int64, addressCodec, netAddrCodec⟩

theorem netAddrCodec_roundTrips (a : CNetAddr) : netAddrCodec.RoundTrips a := fun rest =>
  Parser.bind_eq_some.2 ⟨a.ip, rest, Codec.bytes_roundTrips a.ip rest, rfl⟩

/-- The two bytes of a port. -/
theorem port_bytes (p : UInt16) : (p / 256).toUInt8.toUInt16 * 256 + p.toUInt8.toUInt16 = p := by
  apply UInt16.toNat_inj.1
  have hp := p.toNat_lt
  simp
  omega

theorem addressCodec_roundTrips (a : CAddress) : addressCodec.RoundTrips a := by
  intro rest
  unfold addressCodec
  simp only [List.append_assoc]
  refine Parser.bind_eq_some.2 ⟨_, _, Codec.int32_roundTrips _ _, ?_⟩
  refine Parser.bind_eq_some.2 ⟨_, _, Codec.uint32_roundTrips _ _, ?_⟩
  refine Parser.bind_eq_some.2 ⟨_, _, Codec.uint64_roundTrips _ _, ?_⟩
  refine Parser.bind_eq_some.2 ⟨_, _, Codec.bytes_roundTrips _ _, ?_⟩
  refine Parser.bind_eq_some.2 ⟨_, _, Codec.uint8_roundTrips _ _, ?_⟩
  refine Parser.bind_eq_some.2 ⟨_, _, Codec.uint8_roundTrips _ _, ?_⟩
  rw [port_bytes]
  rfl

theorem keyCodec_roundTrips {k : List UInt8} (h : k.length < 256) : keyCodec.RoundTrips k := by
  intro rest
  have hlen : (UInt8.ofNat k.length).toNat = k.length := by
    rw [UInt8.toNat_ofNat', Nat.mod_eq_of_lt h]
  have hwrite : ∀ bs : List UInt8, bs.flatMap Codec.uint8.write = bs := by
    intro bs
    induction bs with
    | nil => rfl
    | cons b bs ih =>
      have hb : Codec.uint8.write b = [b] := congrArg (fun x => [x]) UInt8.ofNat_toNat
      rw [List.flatMap_cons, ih, hb, List.singleton_append]
  unfold keyCodec
  dsimp only
  rw [List.append_assoc]
  refine Parser.bind_eq_some.2 ⟨_, _, Codec.uint8_roundTrips _ _, ?_⟩
  nth_rewrite 2 [← hwrite k]
  rw [hlen]
  exact Parser.many_flatMap (fun b _ => Codec.uint8_roundTrips b) rest

theorem disk_roundTrips : disk.RoundTrips :=
  ⟨Codec.uint8_roundTrips, Codec.int32_roundTrips, Codec.int64_roundTrips, addressCodec_roundTrips,
    netAddrCodec_roundTrips⟩

end PeersCodec

end TriTip
