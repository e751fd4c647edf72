import CodeReview.Gateway.Settings
import CodeReview.Proofs.Net.Address
import Mathlib

/-!
Where a gateway listens. Its host may be an address of version 4 as it is written, but one of
version 6 only in brackets: without them the colon before the port is one colon among others.
-/

namespace CodeReview.GatewaySettings

open Net (Octets Groups IpAddress SocketAddress)

theorem address_of_render {s : GatewaySettings} {ip : IpAddress} (h : s.host = ip.render) :
    s.address = .ok ⟨ip, s.port⟩ := by
  have htext : s.addressText = SocketAddress.render ⟨ip, s.port⟩ := by
    rw [addressText, h]
    rfl
  rw [address, htext, Net.ofText?_render]

/-- A host with colons is refused unless it begins with a bracket. -/
theorem address_of_colon {s : GatewaySettings} (hcolon : ':' ∈ s.host.toList)
    (hopen : s.host.toList.head? ≠ some '[') :
    s.address = .error (.invalidConfig (s.addressText ++ ": invalid socket address syntax")) := by
  have htext : s.addressText.toList = s.host.toList ++ ':' :: (toString s.port).toList := by
    simp [addressText]
  have hnone : SocketAddress.ofText? s.addressText = none := by
    apply Net.ofText?_eq_none
    · rw [htext]
      cases hhost : s.host.toList with
      | nil =>
          rw [hhost] at hcolon
          cases hcolon
      | cons c cs =>
          rw [hhost] at hopen
          exact hopen
    · have hone : 0 < s.host.toList.count ':' := List.count_pos_iff.mpr hcolon
      rw [htext, List.count_append, List.count_cons_self]
      omega
  rw [address, hnone]

/-- The gateway listens at an address of version 4 that its host writes, and at one of version 6
that its host writes in brackets. Without brackets every address of version 6 is refused. -/
theorem address_of_ip (s : GatewaySettings) :
    (∀ o : Octets, s.host = o.render → s.address = .ok ⟨.v4 o, s.port⟩) ∧
    (∀ g : Groups, s.host = "[" ++ g.render ++ "]" → s.address = .ok ⟨.v6 g, s.port⟩) ∧
    ∀ g : Groups, s.host = g.render → s.address =
      .error (.invalidConfig (s.host ++ ":" ++ toString s.port ++
        ": invalid socket address syntax")) := by
  refine ⟨fun o h => address_of_render h, fun g h => address_of_render h, fun g h => ?_⟩
  obtain ⟨front, after, hshown, hfront⟩ := Net.exists_showEight g.eight
  have hhost : s.host.toList = front ++ ':' :: (after ++
      (if g.scope = 0 then "" else "%" ++ toString g.scope).toList) := by
    rw [h, Groups.render, String.toList_append, hshown]
    simp
  apply address_of_colon
  · rw [hhost]
    exact List.mem_append_right _ List.mem_cons_self
  · rw [hhost]
    cases front with
    | nil => rintro ⟨⟩
    | cons c front =>
        rintro ⟨⟩
        exact absurd (hfront '[' List.mem_cons_self) (by decide)

theorem address_of_ip_loopback :
    let local4 : Octets := ⟨127, 0, 0, 1⟩
    let local6 : Groups := ⟨[0, 0, 0, 0, 0, 0, 0, 1], 0, rfl⟩
    local4.render = "127.0.0.1" ∧ local6.render = "::1" ∧
      (default.withHost "127.0.0.1").address = .ok ⟨.v4 local4, 8080⟩ ∧
      (default.withHost "[::1]").address = .ok ⟨.v6 local6, 8080⟩ ∧
      (default.withHost "::1").address =
        .error (.invalidConfig "::1:8080: invalid socket address syntax") := by
  intro local4 local6
  have h4 : local4.render = "127.0.0.1" := by decide +kernel
  have h6 : local6.render = "::1" := by decide +kernel
  obtain ⟨hfour, -, -⟩ := address_of_ip (default.withHost "127.0.0.1")
  obtain ⟨-, hsix, -⟩ := address_of_ip (default.withHost "[::1]")
  obtain ⟨-, -, hbare⟩ := address_of_ip (default.withHost "::1")
  refine ⟨h4, h6, hfour local4 h4.symm, hsix local6 (by rw [h6]; decide +kernel), ?_⟩
  rw [hbare local6 h6.symm]
  decide +kernel

end CodeReview.GatewaySettings
