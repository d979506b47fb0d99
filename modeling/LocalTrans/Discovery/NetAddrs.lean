import LocalTrans.Foundation.Lines
import LocalTrans.Foundation.Sorting
import LocalTrans.Relay.Messages
import Mathlib.Data.Prod.Lex
import Mathlib.Data.String.Basic

/-!
# The addresses of a device

`net_addrs.rs`: which of the addresses of its interfaces a device can be reached at. The list of the
interfaces, if the system gives one, and the address of the default route are what the system is asked
for. `local_addresses_distinct` says that no address is there twice.
-/

namespace LocalTrans.Discovery

open Foundation Relay

/-- `LocalAddr`; the address is given by its bytes. -/
structure LocalAddr where
  ip : UInt8 × UInt8 × UInt8 × UInt8
  ifName : String
deriving DecidableEq

/-- `VIRTUAL_IF_KEYWORDS`. -/
def virtualIfKeywords : List String :=
  ["vethernet", "wsl", "hyper-v", "vmware", "virtualbox", "vbox", "tailscale", "loopback", "clash",
    "short-tun", "zerotier", "wireguard", "docker", "openvpn"]

/-- `VIRTUAL_IF_PREFIXES`. -/
def virtualIfPrefixes : List String :=
  ["veth", "virbr", "vmnet", "vboxnet", "docker", "br-", "tun", "tap", "utun", "wg", "zt"]

/-- `to_lowercase`, as far as letters of the keywords come of it. -/
def lowercase (text : List Char) : List Char :=
  text.flatMap fun c =>
    if c = '\u212a' then ['k'] else if c = '\u0130' then ['i', '\u0307'] else [c.toLower]

/-- `is_virtual_iface`. -/
def isVirtualIface (ifName : String) : Bool :=
  let lower := lowercase (trim isWhite ifName.toList)
  !lower.isEmpty &&
    ((virtualIfKeywords.any fun keyword => lower.tails.any keyword.toList.isPrefixOf) ||
      virtualIfPrefixes.any fun start => start.toList.isPrefixOf lower)

/-- `is_usable_ipv4`: no loopback, unspecified, link-local, multicast or broadcast address. -/
def isUsableIpv4 : UInt8 × UInt8 × UInt8 × UInt8 → Bool
  | (a, b, c, d) =>
    !(a = 127 || (a, b, c, d) = (0, 0, 0, 0) || (a, b) = (169, 254) || (224 ≤ a && a ≤ 239) ||
      (a, b, c, d) = (255, 255, 255, 255))

/-- One step of `filter_candidates`. -/
def addCandidate (out : List LocalAddr) : String × IpAddr → List LocalAddr
  | (ifName, .v4 a b c d) =>
    if isUsableIpv4 (a, b, c, d) = false ∨ isVirtualIface ifName = true ∨
        (out.any fun known => known.ip = (a, b, c, d)) = true then out
    else out ++ [{ ip := (a, b, c, d), ifName }]
  | (_, .v6 _) => out

/-- `filter_candidates`. -/
def filterCandidates (candidates : List (String × IpAddr)) : List LocalAddr :=
  candidates.foldl addCandidate []

/-- `primary_local_ip`, for the address of the default route. -/
def primaryLocalIp : Option IpAddr → Option (UInt8 × UInt8 × UInt8 × UInt8)
  | some (.v4 a b c d) => if isUsableIpv4 (a, b, c, d) then some (a, b, c, d) else none
  | _ => none

/-- An address as a number, which has the order of the addresses. -/
def addrNumber : UInt8 × UInt8 × UInt8 × UInt8 → Nat
  | (a, b, c, d) => ((a.toNat * 256 + b.toNat) * 256 + c.toNat) * 256 + d.toNat

/-- How `sort_preferred_first` sorts: the preferred address, then by interface and address. -/
def LocalAddr.place (preferred : Option (UInt8 × UInt8 × UInt8 × UInt8)) (addr : LocalAddr) :
    Boolᵒᵈ ×ₗ String ×ₗ Nat :=
  toLex (OrderDual.toDual (decide (some addr.ip = preferred)),
    toLex (addr.ifName, addrNumber addr.ip))

/-- `local_addresses`. -/
def localAddresses (interfaces : Option (List (String × IpAddr))) (route : Option IpAddr) :
    List LocalAddr :=
  match interfaces with
  | some candidates =>
    sortBy (LocalAddr.place (primaryLocalIp route)) (filterCandidates candidates)
  | none => []

/-- A candidate is only added with a new address. -/
theorem add_candidate_distinct {out : List LocalAddr} (h : (out.map LocalAddr.ip).Nodup)
    (candidate : String × IpAddr) : ((addCandidate out candidate).map LocalAddr.ip).Nodup := by
  obtain ⟨ifName, ip⟩ := candidate
  cases ip with
  | v6 segments => exact h
  | v4 a b c d =>
    unfold addCandidate
    dsimp only
    split
    · exact h
    · next hnew =>
      rw [List.map_append, List.map_singleton]
      refine List.nodup_append.mpr ⟨h, List.nodup_singleton _, ?_⟩
      intro ip hmem other hother
      obtain rfl := List.mem_singleton.mp hother
      obtain ⟨known, hknown, rfl⟩ := List.mem_map.mp hmem
      intro heq
      exact hnew (.inr (.inr (List.any_eq_true.mpr ⟨known, hknown, by simpa using heq⟩)))

/-- No address is listed twice. -/
theorem local_addresses_distinct (interfaces : Option (List (String × IpAddr)))
    (route : Option IpAddr) : ((localAddresses interfaces route).map LocalAddr.ip).Nodup := by
  have hfold : ∀ (candidates : List (String × IpAddr)) (out : List LocalAddr),
      (out.map LocalAddr.ip).Nodup →
      ((candidates.foldl addCandidate out).map LocalAddr.ip).Nodup := by
    intro candidates
    induction candidates with
    | nil => exact fun out h => h
    | cons first rest ih => exact fun out h => ih _ (add_candidate_distinct h first)
  unfold localAddresses
  split
  · exact ((sort_by_perm _ _).map _).nodup_iff.mpr (hfold _ [] List.nodup_nil)
  · exact List.nodup_nil

end LocalTrans.Discovery
