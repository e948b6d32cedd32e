import Mathlib.Data.List.Induction
import Mathlib.Data.List.Nodup

namespace Rucix.Drivers

open Function List

/-! The driver core, `kernel/drivers/core/driver.c`.  The lists of a bus keep the
order of registration.
-/

variable {Bus Driver Device : Type}

/-- The fields that the drivers, devices and buses come with.  A missing function is
`none`, and `probe` gives its return value. -/
structure Hardware (Bus Driver Device : Type) where
  driverBus : Driver → Option Bus
  deviceBus : Device → Option Bus
  busMatch : Bus → Option (Device → Driver → Bool)
  probe : Driver → Option (Device → Int)

/-- A call of `drv->probe(dev)`, and `dev->driver` at that time. -/
structure Probe (Driver Device : Type) where
  drv : Driver
  dev : Device
  bound : Option Driver

structure Core (Bus Driver Device : Type) where
  devList : Bus → List Device
  drvList : Bus → List Driver
  globalDeviceList : List Device
  globalDriverList : List Driver
  driver : Device → Option Driver
  probes : List (Probe Driver Device)

def Core.initial : Core Bus Driver Device where
  devList := fun _ => []
  drvList := fun _ => []
  globalDeviceList := []
  globalDriverList := []
  driver := fun _ => none
  probes := []

inductive Registration (Driver Device : Type) where
  | driver (drv : Driver)
  | device (dev : Device)
deriving DecidableEq

def driversOf (trace : List (Registration Driver Device)) : List Driver :=
  trace.filterMap fun
    | .driver drv => some drv
    | .device _ => none

def devicesOf (trace : List (Registration Driver Device)) : List Device :=
  trace.filterMap fun
    | .driver _ => none
    | .device dev => some dev

section

variable (trace : List (Registration Driver Device)) (drv : Driver) (dev : Device)

@[simp] theorem driversOf_driver : driversOf (trace ++ [.driver drv]) = driversOf trace ++ [drv] := by
  simp [driversOf]

@[simp] theorem driversOf_device : driversOf (trace ++ [.device dev]) = driversOf trace := by
  simp [driversOf]

theorem mem_devicesOf {trace : List (Registration Driver Device)} {dev : Device} :
    dev ∈ devicesOf trace ↔ .device dev ∈ trace := by
  simp only [devicesOf, mem_filterMap]
  constructor
  · rintro ⟨registration, member, same⟩
    cases registration with
    | driver drv => simp at same
    | device other =>
      obtain rfl := Option.some.inj same
      exact member
  · intro member
    exact ⟨_, member, rfl⟩

@[simp] theorem devicesOf_driver : devicesOf (trace ++ [.driver drv]) = devicesOf trace := by
  simp [devicesOf]

@[simp] theorem devicesOf_device : devicesOf (trace ++ [.device dev]) = devicesOf trace ++ [dev] := by
  simp [devicesOf]

end

/-- The lists and the bindings of the other devices are the same, and only unbound
devices were probed in between. -/
structure Tried (before after : Core Bus Driver Device) (touched : Device → Prop) : Prop where
  devList : after.devList = before.devList
  drvList : after.drvList = before.drvList
  others : ∀ dev, ¬touched dev → after.driver dev = before.driver dev
  probes : ∃ more, after.probes = before.probes ++ more ∧ ∀ probe ∈ more, probe.bound = none

variable {after : Core Bus Driver Device}

theorem Tried.refl (core : Core Bus Driver Device) : Tried core core touched :=
  ⟨rfl, rfl, fun _ _ => rfl, [], (append_nil _).symm, nofun⟩

theorem Tried.trans (first : Tried core middle touched) (second : Tried middle after touched) :
    Tried core after touched where
  devList := second.devList.trans first.devList
  drvList := second.drvList.trans first.drvList
  others dev apart := (second.others dev apart).trans (first.others dev apart)
  probes := by
    obtain ⟨early, earlier, unbound⟩ := first.probes
    obtain ⟨late, later, alsoUnbound⟩ := second.probes
    refine ⟨early ++ late, by rw [later, earlier, append_assoc], fun probe member => ?_⟩
    rcases mem_append.mp member with old | new
    · exact unbound probe old
    · exact alsoUnbound probe new

theorem Tried.unbound_probes (tried : Tried core after touched) (before : ∀ probe ∈ core.probes, probe.bound = none) :
    ∀ probe ∈ after.probes, probe.bound = none := by
  obtain ⟨more, extended, unbound⟩ := tried.probes
  intro probe member
  rw [extended] at member
  rcases mem_append.mp member with old | new
  · exact before probe old
  · exact unbound probe new

theorem Tried.mono (tried : Tried core after touched) (weaker : ∀ dev, touched dev → more dev) :
    Tried core after more :=
  ⟨tried.devList, tried.drvList, fun dev apart => tried.others dev fun inside => apart (weaker dev inside),
    tried.probes⟩

/-- `drv->probe(dev)` -/
def Core.called (core : Core Bus Driver Device) (drv : Driver) (dev : Device) : Core Bus Driver Device :=
  { core with probes := core.probes ++ [⟨drv, dev, core.driver dev⟩] }

/-- `dev->driver = drv` -/
def Core.bind [DecidableEq Device] (core : Core Bus Driver Device) (drv : Driver) (dev : Device) :
    Core Bus Driver Device :=
  { core with driver := update core.driver dev (some drv) }

theorem Tried.called (core : Core Bus Driver Device) (unbound : core.driver dev = none) :
    Tried core (core.called drv dev) (· = dev) := by
  refine ⟨rfl, rfl, fun _ _ => rfl, [⟨drv, dev, core.driver dev⟩], rfl, ?_⟩
  intro probe member
  rw [mem_singleton.mp member]
  exact unbound

theorem Tried.bind [DecidableEq Device] (dev : Device) :
    Tried core (core.bind drv dev) (· = dev) :=
  ⟨rfl, rfl, fun _ apart => update_of_ne apart _ _, [], (append_nil _).symm, nofun⟩

variable [DecidableEq Bus] (hardware : Hardware Bus Driver Device)

/-- A bus without a `match` function matches everything. -/
def Hardware.matches (bus : Bus) (drv : Driver) (dev : Device) : Bool :=
  match hardware.busMatch bus with
  | none => true
  | some busMatch => busMatch dev drv

/-- The driver is for the bus of the device, matches it and probes it with success. -/
def Hardware.accepts (drv : Driver) (dev : Device) : Bool :=
  match hardware.deviceBus dev with
  | none => false
  | some bus =>
    decide (hardware.driverBus drv = some bus) && hardware.matches bus drv dev &&
      (hardware.probe drv).any fun probe => decide (probe dev = 0)

theorem Hardware.accepts_other
    (apart : ∀ bus, hardware.deviceBus dev = some bus → hardware.driverBus drv ≠ some bus) :
    hardware.accepts drv dev = false := by
  unfold Hardware.accepts
  cases own : hardware.deviceBus dev with
  | none => rfl
  | some bus => simp [apart bus own]

theorem Hardware.find?_filter (own : hardware.deviceBus dev = some bus) (drivers : List Driver) :
    (drivers.filter (hardware.driverBus · = some bus)).find? (fun drv => hardware.accepts drv dev) =
      drivers.find? fun drv => hardware.accepts drv dev := by
  rw [List.find?_filter]
  congr 1
  funext drv
  by_cases same : hardware.driverBus drv = some bus
  · simp [same]
  · simp [hardware.accepts_other fun other its => Option.some.inj (own.symm.trans its) ▸ same]

variable [DecidableEq Device]

/-- Only devices with a bus are tried. -/
def driverProbeDevice (core : Core Bus Driver Device) (drv : Driver) (dev : Device) :
    Int × Core Bus Driver Device :=
  if hardware.driverBus drv ≠ hardware.deviceBus dev then (-1, core)
  else
    match hardware.deviceBus dev with
    | none => (-1, core)
    | some bus =>
      if hardware.matches bus drv dev = false then (-1, core)
      else
        match hardware.probe drv with
        | none => (-1, core)
        | some probe =>
          if probe dev = 0 then (0, (core.called drv dev).bind drv dev)
          else (-1, core.called drv dev)

/-- The loop of `driver_register`. -/
def tryDevices (drv : Driver) : Core Bus Driver Device → List Device → Core Bus Driver Device
  | core, [] => core
  | core, dev :: rest =>
    tryDevices drv
      (if core.driver dev = none then (driverProbeDevice hardware core drv dev).2 else core) rest

/-- The loop of `device_register`. -/
def tryDrivers (dev : Device) : Core Bus Driver Device → List Driver → Core Bus Driver Device
  | core, [] => core
  | core, drv :: rest =>
    let (result, core) := driverProbeDevice hardware core drv dev
    if result = 0 then core else tryDrivers dev core rest

def driverRegister (core : Core Bus Driver Device) (drv : Driver) : Int × Core Bus Driver Device :=
  match hardware.driverBus drv with
  | none => (-1, core)
  | some bus =>
    let listed := { core with
      drvList := update core.drvList bus (core.drvList bus ++ [drv])
      globalDriverList := core.globalDriverList ++ [drv] }
    (0, tryDevices hardware drv listed (listed.devList bus))

def deviceRegister (core : Core Bus Driver Device) (dev : Device) : Int × Core Bus Driver Device :=
  match hardware.deviceBus dev with
  | none => (-1, core)
  | some bus =>
    let listed := { core with
      devList := update core.devList bus (core.devList bus ++ [dev])
      globalDeviceList := core.globalDeviceList ++ [dev] }
    (0, tryDrivers hardware dev listed (listed.drvList bus))

def Core.register (core : Core Bus Driver Device) : Registration Driver Device → Core Bus Driver Device
  | .driver drv => (driverRegister hardware core drv).2
  | .device dev => (deviceRegister hardware core dev).2

/-- The three ends of a trial: no probe, a probe that fails, and a probe that succeeds. -/
theorem driverProbeDevice_cases :
    hardware.accepts drv dev = false ∧ (driverProbeDevice hardware core drv dev = (-1, core) ∨
      driverProbeDevice hardware core drv dev = (-1, core.called drv dev)) ∨
    hardware.accepts drv dev = true ∧
      driverProbeDevice hardware core drv dev = (0, (core.called drv dev).bind drv dev) := by
  unfold driverProbeDevice Hardware.accepts
  cases bus : hardware.deviceBus dev with
  | none => exact .inl ⟨rfl, .inl (ite_self _)⟩
  | some own =>
    by_cases same : hardware.driverBus drv = some own
    · cases fits : hardware.matches own drv dev with
      | false => exact .inl ⟨by simp [fits], .inl (by simp [fits])⟩
      | true =>
        cases function : hardware.probe drv with
        | none => exact .inl ⟨by simp, .inl (by simp [same])⟩
        | some probe =>
          by_cases success : probe dev = 0
          · exact .inr ⟨by simp [same, fits, success], by simp [same, fits, success]⟩
          · exact .inl ⟨by simp [success], .inr (by simp [same, fits, success])⟩
    · exact .inl ⟨by simp [same], .inl (if_pos same)⟩

/-- An unbound device is bound exactly by a driver that accepts it. -/
theorem driverProbeDevice_tried (drv : Driver) (unbound : core.driver dev = none) :
    Tried core (driverProbeDevice hardware core drv dev).2 (· = dev) ∧
      (driverProbeDevice hardware core drv dev).2.driver dev =
        (if hardware.accepts drv dev then some drv else none) ∧
      ((driverProbeDevice hardware core drv dev).1 = 0 ↔ hardware.accepts drv dev = true) := by
  rcases driverProbeDevice_cases hardware with ⟨refused, same | same⟩ | ⟨accepted, same⟩
  · rw [same, refused]
    exact ⟨.refl core, unbound, by simp⟩
  · rw [same, refused]
    exact ⟨.called core unbound, unbound, by simp⟩
  · rw [same, accepted]
    exact ⟨(Tried.called core unbound).trans (.bind dev), update_self .., by simp⟩

theorem tryDrivers_tried (drivers : List Driver) (unbound : core.driver dev = none) :
    Tried core (tryDrivers hardware dev core drivers) (· = dev) ∧
      (tryDrivers hardware dev core drivers).driver dev =
        drivers.find? fun drv => hardware.accepts drv dev := by
  induction drivers generalizing core with
  | nil => exact ⟨.refl core, unbound⟩
  | cons drv rest ih =>
    obtain ⟨tried, bound, result⟩ := driverProbeDevice_tried hardware drv unbound
    rw [tryDrivers, find?_cons]
    cases accepted : hardware.accepts drv dev with
    | true =>
      rw [accepted] at bound result
      simp only [result.mpr rfl]
      exact ⟨tried, bound⟩
    | false =>
      rw [accepted] at bound result
      simp only [mt result.mp Bool.false_ne_true]
      obtain ⟨later, found⟩ := ih bound
      exact ⟨tried.trans later, found⟩

theorem tryDevices_tried (core : Core Bus Driver Device) (distinct : devices.Nodup) :
    Tried core (tryDevices hardware drv core devices) (· ∈ devices) ∧
      ∀ dev ∈ devices, (tryDevices hardware drv core devices).driver dev =
        (core.driver dev).or (if hardware.accepts drv dev then some drv else none) := by
  induction devices generalizing core with
  | nil => exact ⟨.refl core, nofun⟩
  | cons dev rest ih =>
    obtain ⟨fresh, distinct⟩ := nodup_cons.mp distinct
    rw [tryDevices]
    let next := if core.driver dev = none then (driverProbeDevice hardware core drv dev).2 else core
    have first : Tried core next (· = dev) ∧ next.driver dev =
        (core.driver dev).or (if hardware.accepts drv dev then some drv else none) := by
      cases bound : core.driver dev with
      | none =>
        obtain ⟨tried, now, -⟩ := driverProbeDevice_tried hardware drv bound
        simp only [next, bound]
        exact ⟨tried, now⟩
      | some old =>
        simp only [next, bound, reduceCtorEq, if_false]
        exact ⟨.refl core, rfl⟩
    obtain ⟨tried, others⟩ := ih next distinct
    refine ⟨(first.1.mono fun other same => same ▸ mem_cons_self).trans
      (tried.mono fun other member => mem_cons_of_mem _ member), fun other member => ?_⟩
    rcases mem_cons.mp member with rfl | later
    · rw [tried.others other fresh]
      exact first.2
    · rw [others other later, first.1.others other (ne_of_mem_of_not_mem later fresh)]

/-- The lists of the buses are parts of the trace, and every registered device has the
first of the registered drivers that accepts it. -/
structure Settled (trace : List (Registration Driver Device)) (core : Core Bus Driver Device) : Prop where
  drivers : ∀ bus, core.drvList bus = (driversOf trace).filter (hardware.driverBus · = some bus)
  devices : ∀ bus, core.devList bus = (devicesOf trace).filter (hardware.deviceBus · = some bus)
  distinct : (devicesOf trace).Nodup
  bound : ∀ dev ∈ devicesOf trace,
    core.driver dev = (driversOf trace).find? fun drv => hardware.accepts drv dev
  unbound : ∀ dev ∉ devicesOf trace, core.driver dev = none
  probes : ∀ probe ∈ core.probes, probe.bound = none

variable {hardware}

theorem update_filter {Item : Type} {lists : Bus → List Item} {items : List Item} {busOf : Item → Option Bus}
    {item : Item} {own : Bus} (same : ∀ bus, lists bus = items.filter (busOf · = some bus))
    (bus : busOf item = some own) (other : Bus) :
    update lists own (lists own ++ [item]) other = (items ++ [item]).filter (busOf · = some other) := by
  by_cases here : other = own
  · subst here
    simp [same, bus]
  · rw [update_of_ne here, same]
    simp [bus, Ne.symm here]

theorem Settled.driverRegister (settled : Settled hardware trace core) :
    Settled hardware (trace ++ [.driver drv]) (driverRegister hardware core drv).2 := by
  -- A device is offered the new driver after all the older ones.
  have found : ∀ dev ∈ devicesOf (trace ++ [.driver drv]),
      (driversOf (trace ++ [.driver drv])).find? (fun drv => hardware.accepts drv dev) =
        (core.driver dev).or (if hardware.accepts drv dev then some drv else none) := by
    intro dev member
    rw [devicesOf_driver] at member
    rw [driversOf_driver, find?_append, find?_singleton, settled.bound dev member]
  unfold Drivers.driverRegister
  cases own : hardware.driverBus drv with
  | none =>
    refine ⟨?_, ?_, ?_, fun dev member => ?_, ?_, settled.probes⟩
    · simpa [own] using settled.drivers
    · simpa using settled.devices
    · simpa using settled.distinct
    · rw [found dev member, hardware.accepts_other fun _ _ => own ▸ nofun]
      exact Option.or_none.symm
    · simpa using settled.unbound
  | some bus =>
    let listed := { core with
      drvList := update core.drvList bus (core.drvList bus ++ [drv])
      globalDriverList := core.globalDriverList ++ [drv] }
    have distinct : (listed.devList bus).Nodup := by
      rw [settled.devices]
      exact settled.distinct.filter _
    have onBus : ∀ dev, dev ∈ listed.devList bus ↔
        dev ∈ devicesOf trace ∧ hardware.deviceBus dev = some bus := by
      intro dev
      change dev ∈ core.devList bus ↔ _
      simp [settled.devices]
    obtain ⟨tried, bound⟩ := tryDevices_tried hardware listed distinct
    refine ⟨fun other => ?_, fun other => ?_, ?_, fun dev member => ?_, fun dev absent => ?_, ?_⟩
    · rw [tried.drvList, driversOf_driver]
      exact update_filter settled.drivers own other
    · rw [tried.devList, devicesOf_driver]
      exact settled.devices other
    · simpa using settled.distinct
    · rw [found dev member]
      rw [devicesOf_driver] at member
      by_cases here : hardware.deviceBus dev = some bus
      · exact bound dev ((onBus dev).mpr ⟨member, here⟩)
      · rw [tried.others dev fun inside => here ((onBus dev).mp inside).2,
          hardware.accepts_other fun other its same => here (its.trans (same.symm.trans own))]
        exact Option.or_none.symm
    · rw [devicesOf_driver] at absent
      rw [tried.others dev fun inside => absent ((onBus dev).mp inside).1]
      exact settled.unbound dev absent
    · exact tried.unbound_probes settled.probes

/-- A new device has no driver yet, so that it gets the first one of its bus. -/
theorem Settled.deviceRegister (settled : Settled hardware trace core) {dev : Device} (fresh : dev ∉ devicesOf trace) :
    Settled hardware (trace ++ [.device dev]) (deviceRegister hardware core dev).2 := by
  have distinct : (devicesOf (trace ++ [.device dev])).Nodup := by
    rw [devicesOf_device, ← concat_eq_append]
    exact settled.distinct.concat fresh
  unfold Drivers.deviceRegister
  cases own : hardware.deviceBus dev with
  | none =>
    have unbound : core.driver dev = (driversOf trace).find? fun drv => hardware.accepts drv dev := by
      rw [settled.unbound dev fresh, eq_comm]
      simp [Hardware.accepts, own]
    refine ⟨?_, ?_, distinct, fun other member => ?_, fun other absent => ?_, settled.probes⟩
    · simpa using settled.drivers
    · simpa [own] using settled.devices
    · rw [devicesOf_device, mem_append, mem_singleton] at member
      rw [driversOf_device]
      rcases member with old | rfl
      · exact settled.bound other old
      · exact unbound
    · rw [devicesOf_device, mem_append, not_or] at absent
      exact settled.unbound other absent.1
  | some bus =>
    let listed := { core with
      devList := update core.devList bus (core.devList bus ++ [dev])
      globalDeviceList := core.globalDeviceList ++ [dev] }
    obtain ⟨tried, bound⟩ := tryDrivers_tried hardware (listed.drvList bus)
      (show listed.driver dev = none from settled.unbound dev fresh)
    refine ⟨fun other => ?_, fun other => ?_, distinct, fun other member => ?_, fun other absent => ?_, ?_⟩
    · rw [tried.drvList, driversOf_device]
      exact settled.drivers other
    · rw [tried.devList, devicesOf_device]
      exact update_filter settled.devices own other
    · rw [driversOf_device]
      by_cases here : other = dev
      · subst here
        have onBus : listed.drvList bus =
            (driversOf trace).filter (hardware.driverBus · = some bus) := settled.drivers bus
        rw [bound, onBus, hardware.find?_filter own]
      · rw [tried.others other here]
        rw [devicesOf_device, mem_append, mem_singleton] at member
        exact settled.bound other (member.resolve_right here)
    · rw [devicesOf_device, mem_append, mem_singleton, not_or] at absent
      rw [tried.others other absent.2]
      exact settled.unbound other absent.1
    · exact tried.unbound_probes settled.probes

theorem Settled.run (distinct : trace.Nodup) :
    Settled hardware trace (trace.foldl (Core.register hardware) .initial) := by
  induction trace using List.reverseRecOn with
  | nil => exact ⟨fun _ => rfl, fun _ => rfl, .nil, nofun, fun _ _ => rfl, nofun⟩
  | append_singleton earlier registration ih =>
    rw [foldl_append]
    obtain ⟨before, -, apart⟩ := nodup_append.mp distinct
    cases registration with
    | driver drv => exact (ih before).driverRegister
    | device dev =>
      refine (ih before).deviceRegister fun member => ?_
      exact apart (.device dev) (mem_devicesOf.mp member) _ mem_cons_self rfl

/-- Every device gets the first of the drivers that accepts it, and no bound device is
probed. -/
theorem driver_binding_order (hardware : Hardware Bus Driver Device) (trace : List (Registration Driver Device))
    (distinct : trace.Nodup) : let core := trace.foldl (Core.register hardware) .initial
    (∀ dev ∈ devicesOf trace,
      core.driver dev = (driversOf trace).find? (fun drv => hardware.accepts drv dev) ∧
        (core.driver dev ≠ none ↔ ∃ drv ∈ driversOf trace, hardware.accepts drv dev = true)) ∧
    (∀ probe ∈ core.probes, probe.bound = none) ∧
    ∀ other : List (Registration Driver Device), other.Nodup → driversOf other = driversOf trace →
      (∀ dev, dev ∈ devicesOf other ↔ dev ∈ devicesOf trace) →
      (other.foldl (Core.register hardware) .initial).driver = core.driver := by
  have settled : Settled hardware trace _ := Settled.run distinct
  refine ⟨fun dev member => ⟨settled.bound dev member, ?_⟩, settled.probes, ?_⟩
  · rw [settled.bound dev member]
    simp
  · intro other alsoDistinct drivers devices
    have elsewhere : Settled hardware other _ := Settled.run alsoDistinct
    funext dev
    by_cases member : dev ∈ devicesOf trace
    · rw [elsewhere.bound dev ((devices dev).mpr member), settled.bound dev member, drivers]
    · rw [elsewhere.unbound dev fun inside => member ((devices dev).mp inside), settled.unbound dev member]

def twoDrivers : Hardware Unit Bool Bool where
  driverBus _ := some ()
  deviceBus _ := some ()
  busMatch _ := none
  probe drv := some fun dev => if drv || dev then 0 else -1

theorem driver_binding_order_two :
    let trace : List (Registration Bool Bool) := [.device false, .driver false, .driver true, .device true]
    let core := trace.foldl (Core.register twoDrivers) .initial
    core.driver false = some true ∧ core.driver true = some false ∧
      ([.driver false, .device true, .device false, .driver true].foldl
        (Core.register twoDrivers) .initial).driver = core.driver := by
  have bound := driver_binding_order twoDrivers
    [.device false, .driver false, .driver true, .device true] (by decide)
  exact ⟨(bound.1 false (by decide)).1.trans (by decide), (bound.1 true (by decide)).1.trans (by decide),
    bound.2.2 _ (by decide) (by decide) (by decide)⟩

end Rucix.Drivers
