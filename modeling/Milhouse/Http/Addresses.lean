import Mathlib.Algebra.GroupWithZero.Nat
import Mathlib.Data.Nat.Basic
import Mathlib.Tactic.Common

/-!
# Milhouse — which addresses the HTTP client may connect to

An address is its integer, an IPv6 address with an optional scope id. `IpModule` is what the client
uses of `ipaddress`: parsing, printing, and the range predicates, whose tables depend on the
runtime. The forms that embed an IPv4 address are computed here, as `ipaddress` documents them.

* **`isPublicAddress_iff`** — the guard accepts exactly the texts of routable addresses that embed no
  address that is not routable.
-/

namespace Milhouse.Http

/-! ## Addresses -/

structure IPv4Address where
  value : Nat
  inRange : value < 2 ^ 32
  deriving DecidableEq

structure IPv6Address where
  value : Nat
  inRange : value < 2 ^ 128
  scopeId : Option String
  deriving DecidableEq

inductive IpAddress where
  | v4 (address : IPv4Address)
  | v6 (address : IPv6Address)
  deriving DecidableEq

/-- The low 32 bits of a number. -/
def low32 (n : Nat) : IPv4Address := ⟨n % 2 ^ 32, Nat.mod_lt _ (by decide)⟩

namespace IPv6Address

/-- `ipv4_mapped`. -/
def ipv4Mapped (a : IPv6Address) : Option IPv4Address :=
  if a.value / 2 ^ 32 = 0xFFFF then some (low32 a.value) else none

/-- `sixtofour`. -/
def sixtofour (a : IPv6Address) : Option IPv4Address :=
  if a.value / 2 ^ 112 = 0x2002 then some (low32 (a.value / 2 ^ 80)) else none

/-- `teredo`: the server, and the client with its bits inverted. -/
def teredo (a : IPv6Address) : Option (IPv4Address × IPv4Address) :=
  if a.value / 2 ^ 96 = 0x20010000 then
    some (low32 (a.value / 2 ^ 64), low32 (2 ^ 32 - 1 - a.value % 2 ^ 32))
  else none

end IPv6Address

/-- What the client uses of `ipaddress`. -/
structure IpModule where
  /-- `ip_address(text)`; `none` is `ValueError`. -/
  ipAddress : String → Option IpAddress
  compressed : IpAddress → String
  isLoopback : IpAddress → Bool
  isPrivate : IpAddress → Bool
  isLinkLocal : IpAddress → Bool
  isReserved : IpAddress → Bool
  isMulticast : IpAddress → Bool
  isUnspecified : IpAddress → Bool
  isGlobal : IpAddress → Bool

/-- A character of a compressed address without a scope id. -/
def isAddressChar (c : Char) : Bool :=
  c.isDigit || ('a' ≤ c && c ≤ 'f') || c = ':' || c = '.'

/-- What `ipaddress` documents of the compressed form of a text it parses, where the text has no
scope id (which is what follows a `%`), and of two addresses. -/
structure IpModule.Documented (ip : IpModule) : Prop where
  compressed_parses : ∀ {text a}, ip.ipAddress text = some a → '%' ∉ text.toList →
    ip.ipAddress (ip.compressed a) = some a
  compressed_chars : ∀ {text a}, ip.ipAddress text = some a → '%' ∉ text.toList →
    ∀ c ∈ (ip.compressed a).toList, isAddressChar c = true
  unspecified : ∀ {a : IPv6Address}, a.value = 0 → ip.isUnspecified (.v6 a) = true
  loopback : ∀ {a : IPv6Address}, a.value = 1 → ip.isLoopback (.v6 a) = true

/-! ## The guard -/

section Guard

variable (ip : IpModule)

/-- `_embedded_ipv4`. -/
def embeddedIpv4 (a : IPv6Address) : List IPv4Address :=
  a.ipv4Mapped.toList ++ a.sixtofour.toList ++
    (match a.teredo with
    | some (server, client) => [server, client]
    | none => []) ++
    if a.value / 2 ^ 32 = 0 ∧ a.value ≠ 0 ∧ a.value ≠ 1 then [low32 a.value] else []

/-- Membership in `_IPV4_CGNAT`, `100.64.0.0/10`. -/
def inCgnat (a : IPv4Address) : Bool := a.value / 2 ^ 22 = 0x64400000 / 2 ^ 22

/-- Membership in `_IPV6_ULA`, `fc00::/7`. -/
def inUla (a : IPv6Address) : Bool := a.value / 2 ^ 121 = 0xfc / 2

/-- The explicit ranges. -/
def inExplicitRange : IpAddress → Bool
  | .v4 a => inCgnat a
  | .v6 a => inUla a

/-- `_is_globally_routable`. -/
def isGloballyRoutable (address : IpAddress) : Bool :=
  if inExplicitRange address then false
  else if ip.isLoopback address || ip.isPrivate address || ip.isLinkLocal address ||
      ip.isReserved address || ip.isMulticast address || ip.isUnspecified address then false
  else ip.isGlobal address

/-- `_is_public_address`. -/
def isPublicAddress (text : String) : Bool :=
  match ip.ipAddress text with
  | none => false
  | some address =>
      let embedded := match address with
        | .v4 _ => []
        | .v6 a => embeddedIpv4 a
      embedded.all (fun a => isGloballyRoutable ip (.v4 a)) && isGloballyRoutable ip address

end Guard

/-! ## What the guard is for -/

section Specification

variable (ip : IpModule)

/-- An address in no special range. -/
structure Routable (address : IpAddress) : Prop where
  notShared : ∀ a, address = .v4 a → ¬ (0x64400000 ≤ a.value ∧ a.value < 0x64400000 + 2 ^ 22)
  notLocal : ∀ a, address = .v6 a → ¬ (0xfc * 2 ^ 120 ≤ a.value ∧ a.value < 0xfe * 2 ^ 120)
  notLoopback : ip.isLoopback address = false
  notPrivate : ip.isPrivate address = false
  notLinkLocal : ip.isLinkLocal address = false
  notReserved : ip.isReserved address = false
  notMulticast : ip.isMulticast address = false
  notUnspecified : ip.isUnspecified address = false
  isGlobal : ip.isGlobal address = true

/-- The IPv6 address carries the IPv4 address. -/
inductive Embeds (a : IPv6Address) (inner : IPv4Address) : Prop where
  /-- `::ffff:inner` -/
  | mapped (h : a.value = 0xFFFF * 2 ^ 32 + inner.value)
  /-- `::inner` -/
  | compatible (h : a.value = inner.value)
  /-- `2002:inner::/48` -/
  | sixtofour (rest : Nat) (hrest : rest < 2 ^ 80)
      (h : a.value = 0x2002 * 2 ^ 112 + inner.value * 2 ^ 80 + rest)
  /-- `2001::/32`, the server in the next 32 bits. -/
  | teredoServer (rest : Nat) (hrest : rest < 2 ^ 64)
      (h : a.value = 0x20010000 * 2 ^ 96 + inner.value * 2 ^ 64 + rest)
  /-- `2001::/32`, the client inverted in the last 32 bits. -/
  | teredoClient (rest : Nat) (hrest : rest < 2 ^ 64)
      (h : a.value = 0x20010000 * 2 ^ 96 + rest * 2 ^ 32 + (2 ^ 32 - 1 - inner.value))

/-- The text of a routable address that embeds only routable addresses. -/
def PublicText (text : String) : Prop :=
  ∃ address, ip.ipAddress text = some address ∧ Routable ip address ∧
    ∀ a inner, address = .v6 a → Embeds a inner → Routable ip (.v4 inner)

end Specification

section Correctness

variable {ip : IpModule} {text : String}

theorem isGloballyRoutable_iff {address : IpAddress} :
    isGloballyRoutable ip address = true ↔ Routable ip address := by
  have hsplit : isGloballyRoutable ip address = true ↔ inExplicitRange address = false ∧
      (ip.isLoopback address = false ∧ ip.isPrivate address = false ∧
        ip.isLinkLocal address = false ∧ ip.isReserved address = false ∧
        ip.isMulticast address = false ∧ ip.isUnspecified address = false) ∧
      ip.isGlobal address = true := by
    unfold isGloballyRoutable
    cases inExplicitRange address with
    | true => simp
    | false =>
        cases ip.isLoopback address <;> cases ip.isPrivate address <;>
          cases ip.isLinkLocal address <;> cases ip.isReserved address <;>
          cases ip.isMulticast address <;> cases ip.isUnspecified address <;> simp
  rw [hsplit]
  constructor
  · rintro ⟨hcarved, ⟨h1, h2, h3, h4, h5, h6⟩, hglobal⟩
    refine ⟨?_, ?_, h1, h2, h3, h4, h5, h6, hglobal⟩
    · rintro a rfl
      simp only [inExplicitRange, inCgnat, decide_eq_false_iff_not] at hcarved
      omega
    · rintro a rfl
      simp only [inExplicitRange, inUla, decide_eq_false_iff_not] at hcarved
      omega
  · intro h
    refine ⟨?_, ⟨h.notLoopback, h.notPrivate, h.notLinkLocal, h.notReserved, h.notMulticast,
      h.notUnspecified⟩, h.isGlobal⟩
    cases address with
    | v4 a =>
        have := h.notShared a rfl
        simp only [inExplicitRange, inCgnat, decide_eq_false_iff_not]
        omega
    | v6 a =>
        have := h.notLocal a rfl
        simp only [inExplicitRange, inUla, decide_eq_false_iff_not]
        omega

theorem low32_eq {n : Nat} {inner : IPv4Address} : low32 n = inner ↔ n % 2 ^ 32 = inner.value := by
  cases inner with
  | mk value inRange =>
      unfold low32
      rw [IPv4Address.mk.injEq]

/-- The computed embedded addresses are the embedded ones, `::` and `::1` apart. -/
theorem mem_embeddedIpv4 {a : IPv6Address} {inner : IPv4Address} (hspecial : 2 ≤ a.value) :
    inner ∈ embeddedIpv4 a ↔ Embeds a inner := by
  have ha := a.inRange
  have hinner := inner.inRange
  unfold embeddedIpv4 IPv6Address.ipv4Mapped IPv6Address.sixtofour IPv6Address.teredo
  constructor
  · intro h
    simp only [List.mem_append, Option.mem_toList, Option.ite_none_right_eq_some,
      Option.some.injEq, low32_eq] at h
    rcases h with ((⟨hform, hlow⟩ | ⟨hform, hlow⟩) | hteredo) | hcompatible
    · exact .mapped (by omega)
    · exact .sixtofour (a.value % 2 ^ 80) (by omega) (by omega)
    · split at hteredo
      · rename_i server client hform
        rw [Option.ite_none_right_eq_some, Option.some.injEq, Prod.mk.injEq] at hform
        obtain ⟨hform, hserver, hclient⟩ := hform
        rw [low32_eq] at hserver hclient
        simp only [List.mem_cons, List.not_mem_nil, or_false] at hteredo
        rcases hteredo with rfl | rfl
        · exact .teredoServer (a.value % 2 ^ 64) (by omega) (by omega)
        · exact .teredoClient (a.value / 2 ^ 32 % 2 ^ 64) (by omega) (by omega)
      · cases hteredo
    · split at hcompatible
      · rw [List.mem_singleton, eq_comm, low32_eq] at hcompatible
        exact .compatible (by omega)
      · cases hcompatible
  · intro h
    simp only [List.mem_append, Option.mem_toList, Option.ite_none_right_eq_some,
      Option.some.injEq, low32_eq]
    cases h with
    | mapped h => exact Or.inl (Or.inl (Or.inl ⟨by omega, by omega⟩))
    | sixtofour rest hrest h => exact Or.inl (Or.inl (Or.inr ⟨by omega, by omega⟩))
    | teredoServer rest hrest h =>
        refine Or.inl (Or.inr ?_)
        rw [if_pos (by omega)]
        simp only [List.mem_cons, List.not_mem_nil, or_false, eq_comm (a := inner), low32_eq]
        omega
    | teredoClient rest hrest h =>
        refine Or.inl (Or.inr ?_)
        rw [if_pos (by omega)]
        simp only [List.mem_cons, List.not_mem_nil, or_false, eq_comm (a := inner), low32_eq]
        omega
    | compatible h =>
        refine Or.inr ?_
        rw [if_pos (by omega), List.mem_singleton, eq_comm, low32_eq]
        omega

/-- **The guard** accepts exactly the public texts. -/
theorem isPublicAddress_iff (hip : ip.Documented) : isPublicAddress ip text = true ↔
    PublicText ip text := by
  unfold isPublicAddress PublicText
  cases ip.ipAddress text with
  | none => simp
  | some address =>
      simp only [Bool.and_eq_true, List.all_eq_true, isGloballyRoutable_iff, Option.some.injEq,
        exists_eq_left']
      cases address with
      | v4 a => simp
      | v6 a =>
          -- `::` and `::1` are refused before their embedded address matters
          have hspecial : Routable ip (.v6 a) → 2 ≤ a.value := by
            intro h
            by_contra hlt
            rcases Nat.le_one_iff_eq_zero_or_eq_one.mp (by omega : a.value ≤ 1) with h0 | h1
            · exact absurd (hip.unspecified h0) (by simp [h.notUnspecified])
            · exact absurd (hip.loopback h1) (by simp [h.notLoopback])
          constructor
          · rintro ⟨hembedded, hroutable⟩
            refine ⟨hroutable, fun a' inner heq h => ?_⟩
            obtain rfl := IpAddress.v6.inj heq
            exact hembedded inner ((mem_embeddedIpv4 (hspecial hroutable)).mpr h)
          · rintro ⟨hroutable, hembedded⟩
            exact ⟨fun inner h => hembedded a inner rfl
              ((mem_embeddedIpv4 (hspecial hroutable)).mp h), hroutable⟩

end Correctness

end Milhouse.Http
