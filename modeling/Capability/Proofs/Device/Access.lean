import Capability.Proofs.Command.Listing
import Capability.Proofs.Device.Calls
import Capability.Proofs.Schema.Conversion

/-!
# Access to commands

Whether a caller may invoke a command is settled before the parameters are looked at, and faults of the parameters never
look like denials (`Device.denies_iff`). So a denial tells nothing of the parameters; a caller with a role is served
like all callers with higher roles; and the commands that are listed for a channel are those that its owner may invoke.

* `Device.Reachable.access_spec`: all this for every device that comes from a configuration by calls.
-/

namespace Capability

/-- There is no such command, or the caller may not invoke it. -/
def Fault.IsDenial (e : Fault) : Prop :=
  e.report.code = .invalidCommandName ∨ e.report.code = .accessDenied

namespace Device

variable {κ ω : Type} {d : Device κ} {name : String} {parameters : Json} {role role' : Role} {channel : Channel}
  {e : Fault} {c : Command}

/-- The caller is denied the command. -/
def Denies (d : Device κ) (name : String) (parameters : Json) (role : Role) (channel : Channel) : Prop :=
  ∃ e, d.validate name parameters role channel = .error e ∧ e.IsDenial

/-! ## Access -/

theorem access_ok_iff : d.access name role channel = .ok c ↔
    d.commands.get? name = some c ∧ channel.allows c.visibility = true ∧ c.minimalRole ≤ role := by
  unfold access
  cases hget : d.commands.get? name with
  | none =>
    refine ⟨fun h => ?_, fun h => ?_⟩
    · cases h
    · cases h.1
  | some c' =>
    show (if channel.allows c'.visibility = false then _ else if c'.minimalRole ≤ role then _ else _) = _ ↔ _
    constructor
    · intro h
      split at h
      · cases h
      · rename_i hseen
        split at h
        · rename_i hrole
          obtain rfl := Except.ok.inj h
          exact ⟨rfl, eq_true_of_ne_false hseen, hrole⟩
        · cases h
    · rintro ⟨he, hseen, hrole⟩
      obtain rfl := Option.some.inj he
      rw [if_neg (ne_false_of_eq_true hseen), if_pos hrole]

theorem isDenial_of_access (h : d.access name role channel = .error e) : e.IsDenial := by
  unfold access at h
  split at h
  · obtain rfl := Except.error.inj h
    exact .inl rfl
  · split at h
    · obtain rfl := Except.error.inj h
      exact .inr rfl
    · split at h
      · cases h
      · obtain rfl := Except.error.inj h
        exact .inr rfl

theorem validate_of_access (h : d.access name role channel = .ok c) (parameters : Json) :
    d.validate name parameters role channel = c.parameters.convert parameters := by
  unfold validate
  rw [h]
  rfl

/-- No fault of an object is a denial. -/
theorem not_isDenial_of_convert {o : ObjectType} (h : o.convert parameters = .error e) : ¬e.IsDenial := by
  have hcode : e.report.code ∈ ObjectType.refusals := ObjectType.code_of_convert h
  rintro (he | he)
  · rw [he] at hcode
    revert hcode
    decide
  · rw [he] at hcode
    revert hcode
    decide

/-- A denial is the fault of the access. -/
theorem access_of_validate (h : d.validate name parameters role channel = .error e) (he : e.IsDenial) :
    d.access name role channel = .error e := by
  rcases Fault.bind_error_iff.1 h with h | ⟨c, _, h⟩
  · exact h
  · exact absurd he (not_isDenial_of_convert h)

/-- **A caller is denied a command exactly if the access fails**, whatever the parameters. -/
theorem denies_iff : d.Denies name parameters role channel ↔ ∃ e, d.access name role channel = .error e := by
  constructor
  · rintro ⟨e, h, he⟩
    exact ⟨e, access_of_validate h he⟩
  · rintro ⟨e, h⟩
    exact ⟨e, Fault.bind_error_iff.2 (.inl h), isDenial_of_access h⟩

theorem not_denies_iff : ¬d.Denies name parameters role channel ↔
    ∃ c, d.commands.get? name = some c ∧ channel.allows c.visibility = true ∧ c.minimalRole ≤ role := by
  rw [denies_iff]
  constructor
  · intro h
    cases haccess : d.access name role channel with
    | ok c => exact ⟨c, access_ok_iff.1 haccess⟩
    | error e => exact absurd ⟨e, haccess⟩ h
  · rintro ⟨c, hc⟩ ⟨e, he⟩
    rw [access_ok_iff.2 hc] at he
    cases he

/-! ## Other parameters, roles and channels -/

/-- **A denial does not depend on the parameters.** -/
theorem validate_of_denial (h : d.validate name parameters role channel = .error e) (he : e.IsDenial)
    (parameters' : Json) : d.validate name parameters' role channel = .error e :=
  Fault.bind_error_iff.2 (.inl (access_of_validate h he))

/-- Two callers with access to the same command get the same answer. -/
theorem validate_congr {channel' : Channel} (h : d.access name role channel = .ok c)
    (h' : d.access name role' channel' = .ok c) (parameters : Json) :
    d.validate name parameters role' channel' = d.validate name parameters role channel := by
  rw [validate_of_access h, validate_of_access h']

/-- **Higher roles get the same answer**, where a role is not denied the command. -/
theorem validate_of_le (hrole : role ≤ role') (h : ¬d.Denies name parameters role channel) :
    d.validate name parameters role' channel = d.validate name parameters role channel := by
  obtain ⟨c, hget, hseen, hminimal⟩ := not_denies_iff.1 h
  have haccess' : d.access name role' channel = .ok c := access_ok_iff.2 ⟨hget, hseen, Role.le_trans hminimal hrole⟩
  exact validate_congr (access_ok_iff.2 ⟨hget, hseen, hminimal⟩) haccess' parameters

theorem allows_any_iff (v : Visibility) :
    Channel.any.allows v = true ↔ Channel.nearby.allows v = true ∨ Channel.cloud.allows v = true :=
  Bool.or_eq_true_iff

/-- What is not denied on one channel gets the same answer on any. -/
theorem validate_any (hallows : ∀ v, channel.allows v = true → Channel.any.allows v = true)
    (h : ¬d.Denies name parameters role channel) :
    d.validate name parameters role .any = d.validate name parameters role channel := by
  obtain ⟨c, hget, hseen, hminimal⟩ := not_denies_iff.1 h
  have haccess' : d.access name role .any = .ok c := access_ok_iff.2 ⟨hget, hallows _ hseen, hminimal⟩
  exact validate_congr (access_ok_iff.2 ⟨hget, hseen, hminimal⟩) haccess' parameters

theorem denies_any_iff : ¬d.Denies name parameters role .any ↔
    ¬d.Denies name parameters role .nearby ∨ ¬d.Denies name parameters role .cloud := by
  rw [not_denies_iff, not_denies_iff, not_denies_iff]
  constructor
  · -- the visibility of the one command decides
    rintro ⟨c, hget, hseen, hminimal⟩
    rcases (allows_any_iff _).1 hseen with hnearby | hcloud
    · exact .inl ⟨c, hget, hnearby, hminimal⟩
    · exact .inr ⟨c, hget, hcloud, hminimal⟩
  · rintro (⟨c, hget, hseen, hminimal⟩ | ⟨c, hget, hseen, hminimal⟩)
    · exact ⟨c, hget, (allows_any_iff _).2 (.inl hseen), hminimal⟩
    · exact ⟨c, hget, (allows_any_iff _).2 (.inr hseen), hminimal⟩

/-! ## Listings -/

/-- The command is among those that are seen on the channel. -/
def Lists (d : Device κ) (channel : Channel) (form : Form) (name : String) : Prop :=
  ∃ package command, name = Dictionary.fullName package command ∧
    ((d.commandsOn channel form).property? package command).isSome = true

section Reachable

variable {onChange : Reaction κ ω} {onAcknowledged : Nat → Reaction κ ω}

/-- **A channel lists the commands that are seen on it**, under the two parts of their names. -/
theorem Reachable.lists_iff (hd : d.Reachable onChange onAcknowledged) (form : Form) :
    d.Lists channel form name ↔ ∃ c, d.commands.get? name = some c ∧ channel.allows c.visibility = true := by
  have hlisted := fun package command => Dictionary.property?_toJson hd.sorted form
    (fun c => channel.allows c.visibility) package command
  constructor
  · rintro ⟨package, command, rfl, h⟩
    unfold commandsOn at h
    rw [hlisted] at h
    split at h
    · cases h
    · rw [Option.isSome_map, Option.isSome_iff_exists] at h
      obtain ⟨c, hc⟩ := h
      exact ⟨c, Option.filter_eq_some_iff.1 hc⟩
  · rintro ⟨c, hget, hseen⟩
    obtain ⟨package, command, rfl, hnamed⟩ := hd.named hget
    refine ⟨package, command, rfl, ?_⟩
    unfold commandsOn
    rw [hlisted, if_neg hnamed.package_dot, Option.isSome_map, Option.isSome_iff_exists]
    exact ⟨c, Option.filter_eq_some_iff.2 ⟨hget, hseen⟩⟩

/-- **On each channel exactly the commands are listed that an owner is not denied there. A denial is the same for all
parameters. Who is not denied a command gets the answer that all higher roles get. On any channel a command is denied if
it is denied on both, and else the answer is that of the channel where it is not.** -/
theorem Reachable.access_spec (hd : d.Reachable onChange onAcknowledged) :
    (∀ channel form name parameters, d.Lists channel form name ↔ ¬d.Denies name parameters .owner channel) ∧
    (∀ name role channel parameters parameters' e, d.validate name parameters role channel = .error e →
      e.IsDenial → d.validate name parameters' role channel = .error e) ∧
    (∀ name parameters role role' channel, role ≤ role' → ¬d.Denies name parameters role channel →
      ¬d.Denies name parameters role' channel ∧
        d.validate name parameters role' channel = d.validate name parameters role channel) ∧
    ∀ name parameters role,
      (¬d.Denies name parameters role .any ↔
        ¬d.Denies name parameters role .nearby ∨ ¬d.Denies name parameters role .cloud) ∧
      ∀ channel, ¬d.Denies name parameters role channel →
        d.validate name parameters role .any = d.validate name parameters role channel := by
  refine ⟨fun channel form name parameters => ?_, fun _ _ _ _ parameters' _ h he => validate_of_denial h he parameters',
    fun name parameters role role' channel hrole h => ⟨?_, validate_of_le hrole h⟩,
    fun name parameters role => ⟨denies_any_iff, fun channel h => ?_⟩⟩
  · rw [hd.lists_iff, not_denies_iff]
    constructor
    · rintro ⟨c, hget, hseen⟩
      exact ⟨c, hget, hseen, Role.le_owner _⟩
    · rintro ⟨c, hget, hseen, _⟩
      exact ⟨c, hget, hseen⟩
  · obtain ⟨c, hget, hseen, hminimal⟩ := not_denies_iff.1 h
    exact not_denies_iff.2 ⟨c, hget, hseen, Role.le_trans hminimal hrole⟩
  · refine validate_any (fun v hv => ?_) h
    cases channel with
    | nearby => exact (allows_any_iff v).2 (.inl hv)
    | cloud => exact (allows_any_iff v).2 (.inr hv)
    | any => exact hv

end Reachable

/-- A command for managers on the local channel. -/
theorem access_spec_reboot : ∃ (calls : List (Call Unit)) (d₀ d : Device Unit),
    calls =
      [.addCommands (.object [("base", .object [("_reboot",
        .object [("minimalRole", .string "manager"), ("visibility", .string "local")])])]) "custom"] ∧
    ofConfig {} = .ok d₀ ∧ d = (InUse.run Session.ignore (fun _ => Session.ignore) ⟨d₀, ()⟩ calls).device ∧
    d.Reachable Session.ignore (fun _ => Session.ignore) ∧
    d.Lists .nearby .full "base._reboot" ∧ ¬d.Lists .cloud .full "base._reboot" ∧
    d.validate "base._reboot" (.object []) .manager .any = .ok [] ∧
    d.validate "base._reboot" (.object []) .owner .any = .ok [] ∧
    ∀ parameters, d.validate "base._reboot" parameters .user .nearby = .error (roleTooLow .user .manager) := by
  let calls : List (Call Unit) :=
    [.addCommands (.object [("base", .object [("_reboot",
      .object [("minimalRole", .string "manager"), ("visibility", .string "local")])])]) "custom"]
  let d₀ : Device Unit := ⟨.empty, .empty, .ofCapacity 100, .ofCapacity 256⟩
  let d : Device Unit := (InUse.run Session.ignore (fun _ => Session.ignore) ⟨d₀, ()⟩ calls).device
  have hd : d.Reachable Session.ignore (fun _ => Session.ignore) := ⟨{}, d₀, (), calls, rfl, rfl⟩
  obtain ⟨hlists, hdenial, hroles, hany⟩ := hd.access_spec
  have hmanager : d.validate "base._reboot" (.object []) .manager .nearby = .ok [] := rfl
  have hserved : ¬d.Denies "base._reboot" (.object []) .manager .nearby := by
    rintro ⟨e, he, _⟩
    cases hmanager.symm.trans he
  have hunseen : d.Denies "base._reboot" (.object []) .owner .cloud := ⟨_, rfl, .inr rfl⟩
  obtain ⟨hserved', howner⟩ := hroles _ _ _ .owner _ (by decide) hserved
  refine ⟨calls, d₀, d, rfl, rfl, rfl, hd, ?_, ?_, ?_, ?_, fun parameters => ?_⟩
  · exact (hlists .nearby .full _ _).2 hserved'
  · exact fun h => (hlists .cloud .full _ _).1 h hunseen
  · exact ((hany _ _ _).2 .nearby hserved).trans hmanager
  · exact ((hany _ _ _).2 .nearby hserved').trans (howner.trans hmanager)
  · exact hdenial _ _ _ (.object []) parameters _ rfl (.inr rfl)

end Device

end Capability
