import Hyprwire.Scanner.Document
import Hyprwire.Wire.Limits
import Hyprwire.System.Client

/-!
# `System/Specs.lean` — what an advertisement says

A server advertises each registered implementation as `name@version`, in one string. The client
takes the strings apart at the last `@` and reads a number behind it; a string it can make nothing
of is skipped. Names may have an `@` in them and a number has none, so nothing is skipped that a
server sends, and the client holds the implementations as they were registered
(`advertisement_round_trip`): the pairs that the messages of the system model carry
(`serverSpecs_handle`).
-/

namespace Hyprwire

open Rust

/-- `server_spec::AdvertisedSpec`. -/
structure AdvertisedSpec where
  name : String
  version : UInt32
  deriving DecidableEq, Repr

namespace ClientSocket

/-- `&spec[..p]` and `&spec[p..]`. -/
def slices (spec : String) (p : Nat) : Outcome Error (List Char × List Char) :=
  match Utf8.splitAt spec.toList p with
  | some parts => .ok parts
  | none => .panic .sliceOutOfRange

/-- The body of the loop of `server_specs`; `none` is a string that is skipped. -/
def serverSpec (spec : String) : Outcome Error (Option AdvertisedSpec) :=
  match Utf8.rfind '@' spec.toList with
  | none => .ok none
  | some atPos => do
    let (_, digits) ← slices spec (atPos + 1)
    match Scanner.Parse.parseU32 (String.ofList digits) with
    | .ok version => do
      let (name, _) ← slices spec atPos
      .ok (some ⟨String.ofList name, version⟩)
    | _ => .ok none

/-- `ClientSocket::server_specs`: what it leaves in the list it finds. -/
def serverSpecs (specs : List AdvertisedSpec) : List String → Outcome Error (List AdvertisedSpec)
  | [] => .ok specs
  | s :: ss => do
    match ← serverSpec s with
    | some spec => serverSpecs (specs ++ [spec]) ss
    | none => serverSpecs specs ss

/-- `ClientSocket::get_spec`. -/
def getSpec (specs : List AdvertisedSpec) (name : String) : Option AdvertisedSpec :=
  specs.find? fun spec => spec.name = name

/-- What a client should hold of an implementation. -/
def advertised (imp : ProtocolSpec) : AdvertisedSpec := ⟨imp.specName, imp.specVer⟩

/-! ## One string -/

theorem at_notMem_repr (n : Nat) : '@' ∉ n.repr.toList := by
  intro hmem
  rw [Nat.toList_repr] at hmem
  have hdigit := Nat.isDigit_of_mem_toDigits (by decide) (by decide) hmem
  cases hdigit

/-- The `@` that was put in is found, and the name and the number on its sides with it. -/
theorem serverSpec_format (name : String) (version : UInt32) :
    serverSpec s!"{name}@{version}" = .ok (some ⟨name, version⟩) := by
  have hchars : (s!"{name}@{version}").toList
      = name.toList ++ '@' :: version.toNat.repr.toList := by
    simp [toString, String.toList_append]
  have hdigits : slices s!"{name}@{version}" (Utf8.byteLen name.toList + 1)
      = .ok (name.toList ++ ['@'], version.toNat.repr.toList) := by
    have hcut := Utf8.splitAt_append (name.toList ++ ['@']) version.toNat.repr.toList
    rw [List.append_assoc, List.singleton_append, Utf8.byteLen_append, ← hchars] at hcut
    have hat : Utf8.byteLen ['@'] = 1 := rfl
    rw [hat] at hcut
    rw [slices, hcut]
  have hname : slices s!"{name}@{version}" (Utf8.byteLen name.toList)
      = .ok (name.toList, '@' :: version.toNat.repr.toList) := by
    have hcut := Utf8.splitAt_append name.toList ('@' :: version.toNat.repr.toList)
    rw [← hchars] at hcut
    rw [slices, hcut]
  rw [serverSpec, hchars, Utf8.rfind_append (at_notMem_repr _)]
  simp only [hdigits, hname, Outcome.ok_bind, String.ofList_toList, Scanner.Parse.parseU32_repr]

/-! ## The list -/

theorem serverSpecs_protocolNames (impls : List ProtocolSpec) (specs : List AdvertisedSpec) :
    serverSpecs specs (protocolNames impls) = .ok (specs ++ impls.map advertised) := by
  induction impls generalizing specs with
  | nil => rw [List.map_nil, List.append_nil]; rfl
  | cons imp impls ih =>
    have hspec := serverSpec_format imp.specName imp.specVer
    rw [protocolNames, List.map_cons, serverSpecs, hspec, Outcome.ok_bind]
    simp only []
    rw [← protocolNames, ih, List.map_cons, List.append_assoc]
    rfl

/-- A name is looked up among the implementations that were registered. -/
theorem getSpec_advertised (impls : List ProtocolSpec) (name : String) :
    getSpec (impls.map advertised) name
      = (impls.find? fun imp => imp.specName = name).map advertised := by
  rw [getSpec, List.find?_map]
  rfl

/-- **What is advertised is what was registered**: however the message arrives, the client reads
every implementation with its version, in order, and finds the first one of a name. (`isizeMax` is
as long as a `Vec` can be.) -/
theorem advertisement_round_trip {m : Overflow} {impls : List ProtocolSpec}
    {data rest : List UInt8} {offset : Nat} (hcount : impls.length < 2048)
    (hdata : data.drop offset = (HandshakeProtocols.new (protocolNames impls)).data ++ rest)
    (hoff : offset ≤ data.length) (hlen : data.length ≤ isizeMax) :
    ∃ msg specs, HandshakeProtocols.fromBytes m data offset = .ok msg ∧
      serverSpecs [] msg.protocols = .ok specs ∧
      specs.map (fun spec => (spec.name, spec.version))
        = impls.map (fun imp => (imp.specName, imp.specVer)) ∧
      ∀ name, (getSpec specs name).map AdvertisedSpec.version
        = (impls.find? fun imp => imp.specName = name).map ProtocolSpec.specVer := by
  have hread := HandshakeProtocols.fromBytes_new (m := m)
    (by rw [protocolNames, List.length_map]; exact hcount) hdata hoff hlen
  refine ⟨_, impls.map advertised, hread, serverSpecs_protocolNames impls [], ?_, ?_⟩
  · rw [List.map_map]
    rfl
  · intro name
    rw [getSpec_advertised, Option.map_map]
    rfl

/-- Two protocols of one name, which has an `@` in it, and one with a name of three bytes. -/
theorem advertisement_round_trip_twins :
    ∃ msg specs,
      HandshakeProtocols.fromBytes .checked
        (HandshakeProtocols.new (protocolNames [⟨"a@b", 7, []⟩, ⟨"a@b", 8, []⟩, ⟨"€", 0, []⟩])).data
        0 = .ok msg ∧
      serverSpecs [] msg.protocols = .ok specs ∧
      specs.map (fun spec => (spec.name, spec.version)) = [("a@b", 7), ("a@b", 8), ("€", 0)] ∧
      (getSpec specs "a@b").map AdvertisedSpec.version = some 7 := by
  obtain ⟨msg, specs, hread, hspecs, hlist, hfind⟩ :=
    @advertisement_round_trip .checked [⟨"a@b", 7, []⟩, ⟨"a@b", 8, []⟩, ⟨"€", 0, []⟩] _ [] 0
      (by decide) (List.append_nil _).symm (Nat.zero_le _) (by decide)
  exact ⟨msg, specs, hread, hspecs, hlist, hfind "a@b"⟩

/-! ## The system model -/

/-- The pairs that a `handshakeProtocols` of the system model adds to what a client holds are those
that the strings of the real one say. -/
theorem serverSpecs_handle (c : Client) (q : Nat) (impls : List ProtocolSpec) (rest : List S2C) :
    ∃ specs, serverSpecs [] (protocolNames impls) = .ok specs ∧
      (c.handle q (.handshakeProtocols (impls.map fun imp => (imp.specName, imp.specVer.toNat)))
        rest).serverSpecs
        = c.serverSpecs ++ specs.map fun spec => (spec.name, spec.version.toNat) := by
  refine ⟨impls.map advertised, serverSpecs_protocolNames impls [], ?_⟩
  rw [List.map_map]
  rfl

end ClientSocket

end Hyprwire
