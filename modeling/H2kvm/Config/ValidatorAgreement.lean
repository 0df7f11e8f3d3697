import Mathlib.Data.Option.Basic
import H2kvm.Config.Validation

namespace H2kvm.Config

open Framework Text

/-- Both validators take the keywords for the same configuration, or neither takes them. -/
def Agree {α : Type*} (pydantic : Option α) (stdlib : Except Rejection α) : Prop := pydantic = stdlib.toOption

section accepting

variable {α : Type*}

theorem raiseIf_eq_some_iff {errors : List FieldError} {config c : α} :
    (raiseIf errors config).toOption = some c ↔ errors = [] ∧ config = c := by
  cases errors with
  | nil => simp [raiseIf, Except.toOption]
  | cons e errors => simp [raiseIf, Except.toOption]

theorem guard_eq_some_iff {p : Prop} [Decidable p] {u : Unit} : (guard p : Option Unit) = some u ↔ p := by
  by_cases h : p
  · simp [guard, h]
  · simp [guard, h]

/-- Validators that make the same configuration agree when they take the same keywords. -/
theorem agree_iff_of_eq_some_iff {pydantic : Option α} {stdlib : Except Rejection α} {config : α} {P Q : Prop}
    (hp : ∀ c, pydantic = some c ↔ P ∧ config = c) (hq : ∀ c, stdlib.toOption = some c ↔ Q ∧ config = c) :
    Agree pydantic stdlib ↔ (P ↔ Q) := by
  constructor
  · intro agree
    have taken : P ∧ config = config ↔ Q ∧ config = config := by rw [← hp config, ← hq config, agree]
    simpa using taken
  · intro same
    refine Option.ext fun c => ?_
    rw [hp c, hq c, same]

end accepting

section patterns

variable {pattern : List Char → Bool} {s : List Char}

theorem pyMatches_iff (bounded : ∀ s, pattern s = true → s.getLast? ≠ some '\n') (h : pyMatches pattern s = true) :
    pattern s = true ↔ s.getLast? ≠ some '\n' := by
  constructor
  · exact bounded s
  · intro last
    rw [pyMatches, decide_eq_false last, Bool.false_and, Bool.or_false] at h
    exact h

theorem pyMatches_of_pattern (h : pattern s = true) : pyMatches pattern s = true := by
  rw [pyMatches, h, Bool.true_or]

theorem getLast?_of_isInterfaceName (h : isInterfaceName s = true) : s.getLast? ≠ some '\n' := by
  intro last
  cases s with
  | nil => cases h
  | cons c rest =>
    obtain ⟨first, others⟩ := Bool.and_eq_true_iff.mp h
    rcases List.mem_cons.mp (List.mem_of_getLast? last) with rfl | mem
    · exact absurd first (by decide)
    · exact absurd (List.all_eq_true.mp others _ mem) (by decide)

theorem getLast?_of_isMac (h : isMac s = true) : s.getLast? ≠ some '\n' := by
  intro last
  obtain ⟨-, parts⟩ := Bool.and_eq_true_iff.mp h
  -- what is joined from hexadecimal digits and colons has no newline in it
  have whole : join [':'] (s.splitOn ':') = s := List.intercalate_splitOn ':'
  have mem := List.mem_of_getLast? last
  rw [← whole] at mem
  rcases mem_join mem with colon | ⟨part, hpart, inside⟩
  · exact absurd colon (by decide)
  · obtain ⟨-, hex⟩ := Bool.and_eq_true_iff.mp (List.all_eq_true.mp parts part hpart)
    exact absurd (List.all_eq_true.mp hex _ inside) (by decide)

end patterns

namespace NetworkArgs

/-- A text that is not empty passes a check, if there is one. -/
def passes (valid : List Char → Bool) (value : Option (Option (List Char))) : Prop :=
  ∀ s, value = some (some s) → s ≠ [] → valid s = true

/-- The keywords are right, if a newline at the end of a name or an address is overlooked. -/
structure Sound (args : NetworkArgs) : Prop where
  known : args.unknown = []
  interfaceName : ∃ name, args.interfaceName = some name ∧ pyMatches isInterfaceName name = true
  macAddress : passes (pyMatches isMac) args.macAddress
  ipAddress : passes isValidIp args.ipAddress
  gateway : passes isValidIp args.gateway
  dnsServers : ∀ servers, args.dnsServers = some (some servers) → servers.length ≤ 3

/-- There is nothing the two validators take differently. -/
structure Plain (args : NetworkArgs) : Prop where
  interfaceName : ∀ name, args.interfaceName = some name → name.getLast? ≠ some '\n'
  macAddress : ∀ mac, args.macAddress = some (some mac) → mac ≠ [] ∧ mac.getLast? ≠ some '\n'
  ipAddress : ∀ ip, args.ipAddress = some (some ip) → ip ≠ [] ∧ isDotted ip = true
  gateway : args.gateway ≠ some (some [])
  dnsServers : args.dnsServers ≠ some none

end NetworkArgs

/-- A required name, no unknown keyword and a port in its range. -/
structure VMwareSourceArgs.Sound (args : VMwareSourceArgs) : Prop where
  known : args.unknown = []
  host : args.host.isSome
  username : args.username.isSome
  password : args.password.isSome
  port : ∀ port, args.port = some port → 1 ≤ port ∧ port ≤ 65535

/-- With a UUID `vm_name` is not passed as `None`; without one it is passed as `None` or as a name. -/
def VMwareSourceArgs.Identified (args : VMwareSourceArgs) : Prop :=
  if given args.vmUuid.join then args.vmName ≠ some none else args.vmName ≠ none ∧ args.vmName ≠ some (some [])

/-- The validators agree on a VMware source, both refuse one without a name and a UUID, and both take one with a UUID
alone. -/
structure SourceAgree (args : VMwareSourceArgs) : Prop where
  agree : Agree args.pydantic args.stdlib
  neither : args.vmName.join = none → args.vmUuid.join = none → args.pydantic = none ∧ args.stdlib.toOption = none
  onlyUuid : args.Sound → args.vmName.join = none → given args.vmUuid.join = true →
    args.pydantic.isSome ∧ args.stdlib.toOption.isSome

section network

variable {args : NetworkArgs} {valid : List Char → Bool} {value : Option (Option (List Char))}

theorem passes_iff :
    NetworkArgs.passes valid value ↔ ¬∃ s, value = some (some s) ∧ given (some s) = true ∧ valid s = false := by
  rw [NetworkArgs.passes, not_exists]
  refine forall_congr' fun s => ?_
  cases s with
  | nil => simp [given]
  | cons c s => simp [given]

theorem unlessValid_eq_nil_iff (report : List Char → FieldError) (value : Option (Option (List Char))) :
    NetworkConfig.unlessValid valid report value.join = [] ↔ NetworkArgs.passes valid value := by
  rcases value with _ | _ | s
  · exact iff_of_true rfl fun s h => nomatch h
  · exact iff_of_true rfl fun s h => nomatch h
  · rw [passes_iff]
    simp [NetworkConfig.unlessValid]

theorem many_dns_iff (dns : Option (Option (List (List Char)))) :
    (dns.join.getD []).length > 3 ↔ ¬∀ servers, dns = some (some servers) → servers.length ≤ 3 := by
  rcases dns with _ | _ | servers
  · simp
  · simp
  · simp

namespace NetworkArgs

/-- What both validators make of the keywords they take. -/
def config (args : NetworkArgs) : NetworkConfig where
  interfaceName := args.interfaceName.getD []
  macAddress := args.macAddress.join
  ipAddress := args.ipAddress.join
  gateway := args.gateway.join
  dnsServers := args.dnsServers.join.getD []

theorem errors_eq_nil_iff {name : List Char} (h : args.interfaceName = some name) (known : args.unknown = []) :
    args.config.errors = [] ↔ args.Sound := by
  have named : args.config.interfaceName = name := by rw [config, h, Option.getD_some]
  simp only [NetworkConfig.errors, NetworkConfig.ipError, List.append_eq_nil_iff, named]
  constructor
  · rintro ⟨⟨⟨⟨matched, mac⟩, ip⟩, gateway⟩, servers⟩
    refine ⟨known, ⟨name, h, ?_⟩, (unlessValid_eq_nil_iff _ _).mp mac, (unlessValid_eq_nil_iff _ _).mp ip,
      (unlessValid_eq_nil_iff _ _).mp gateway, ?_⟩
    · by_contra bad
      rw [if_neg bad] at matched
      cases matched
    · by_contra many
      have more : args.config.dnsServers.length > 3 := (many_dns_iff _).mpr many
      rw [if_pos more] at servers
      cases servers
  · intro sound
    obtain ⟨name', found, matched⟩ := sound.interfaceName
    rw [h, Option.some.injEq] at found
    subst found
    refine ⟨⟨⟨⟨if_pos matched, (unlessValid_eq_nil_iff _ _).mpr sound.macAddress⟩,
      (unlessValid_eq_nil_iff _ _).mpr sound.ipAddress⟩, (unlessValid_eq_nil_iff _ _).mpr sound.gateway⟩, ?_⟩
    exact if_neg fun many => (many_dns_iff _).mp many sound.dnsServers

theorem stdlib_eq_some_iff {c : NetworkConfig} : args.stdlib.toOption = some c ↔ args.Sound ∧ args.config = c := by
  cases name : args.interfaceName with
  | none =>
    rw [stdlib, name]
    refine iff_of_false (fun h => nomatch h) fun ⟨sound, _⟩ => ?_
    obtain ⟨n, found, -⟩ := sound.interfaceName
    rw [name] at found
    cases found
  | some n =>
    by_cases known : args.unknown = []
    · have made : args.stdlib = raiseIf args.config.errors args.config := by simp [stdlib, name, known, config]
      rw [made, raiseIf_eq_some_iff, errors_eq_nil_iff name known]
    · have refused : args.stdlib = .error .typeError := by simp [stdlib, name, known]
      rw [refused]
      exact iff_of_false (fun h => nomatch h) fun h => known h.1.known

/-- The keywords are right to the letter. -/
structure Strict (args : NetworkArgs) : Prop where
  known : args.unknown = []
  interfaceName : ∃ name, args.interfaceName = some name ∧ isInterfaceName name = true
  macAddress : ∀ s, args.macAddress = some (some s) → isMac s = true
  ipAddress : ∀ s, args.ipAddress = some (some s) → (isDotted s && isValidIp s) = true
  gateway : ∀ s, args.gateway = some (some s) → isValidIp s = true
  dnsServers : args.dnsServers ≠ some none ∧ ∀ servers, args.dnsServers = some (some servers) → servers.length ≤ 3

theorem strict_iff : args.Strict ↔ args.Sound ∧ args.Plain := by
  constructor
  · intro strict
    obtain ⟨name, found, matched⟩ := strict.interfaceName
    refine ⟨⟨strict.known, ⟨name, found, pyMatches_of_pattern matched⟩, ?_, ?_, ?_, strict.dnsServers.2⟩,
      ⟨?_, ?_, ?_, ?_, strict.dnsServers.1⟩⟩
    · exact fun s h _ => pyMatches_of_pattern (strict.macAddress s h)
    · exact fun s h _ => (Bool.and_eq_true_iff.mp (strict.ipAddress s h)).2
    · exact fun s h _ => strict.gateway s h
    · intro name' h
      rw [found, Option.some.injEq] at h
      exact h ▸ getLast?_of_isInterfaceName matched
    · intro mac h
      refine ⟨?_, getLast?_of_isMac (strict.macAddress mac h)⟩
      rintro rfl
      exact absurd (strict.macAddress [] h) (by decide)
    · intro ip h
      refine ⟨?_, (Bool.and_eq_true_iff.mp (strict.ipAddress ip h)).1⟩
      rintro rfl
      exact absurd (strict.ipAddress [] h) (by decide)
    · intro h
      exact absurd (strict.gateway [] h) (by decide)
  · rintro ⟨sound, plain⟩
    obtain ⟨name, found, matched⟩ := sound.interfaceName
    refine ⟨sound.known, ⟨name, found, ?_⟩, ?_, ?_, ?_, plain.dnsServers, sound.dnsServers⟩
    · exact (pyMatches_iff (fun s => getLast?_of_isInterfaceName) matched).mpr (plain.interfaceName name found)
    · intro mac h
      obtain ⟨there, last⟩ := plain.macAddress mac h
      exact (pyMatches_iff (fun s => getLast?_of_isMac) (sound.macAddress mac h there)).mpr last
    · intro ip h
      obtain ⟨there, dotted⟩ := plain.ipAddress ip h
      exact Bool.and_eq_true_iff.mpr ⟨dotted, sound.ipAddress ip h there⟩
    · intro gateway h
      refine sound.gateway gateway h ?_
      rintro rfl
      exact plain.gateway h

theorem checked_eq_some_iff {taken : Option (List Char)} :
    checked valid value = some taken ↔ (∀ s, value = some (some s) → valid s = true) ∧ value.join = taken := by
  rcases value with _ | _ | s
  · simp [checked]
  · simp [checked]
  · simp [checked]

theorem checkedDns_eq_some_iff {dns : Option (Option (List (List Char)))} {taken : List (List Char)} :
    checkedDns dns = some taken ↔
      (dns ≠ some none ∧ ∀ servers, dns = some (some servers) → servers.length ≤ 3) ∧ dns.join.getD [] = taken := by
  rcases dns with _ | _ | servers
  · simp [checkedDns]
  · simp [checkedDns]
  · simp [checkedDns]

theorem pydantic_eq_some_iff {c : NetworkConfig} : args.pydantic = some c ↔ args.Strict ∧ args.config = c := by
  by_cases known : args.unknown = []
  · rw [pydantic, if_neg (not_not_intro known)]
    simp only [Option.bind_eq_bind, Option.bind_eq_some_iff, guard_eq_some_iff, checked_eq_some_iff,
      checkedDns_eq_some_iff]
    constructor
    · rintro ⟨name, found, _, matched, _, ⟨mac, rfl⟩, _, ⟨ip, rfl⟩, _, ⟨gateway, rfl⟩, _, ⟨dns, rfl⟩, made⟩
      refine ⟨⟨known, ⟨name, found, matched⟩, mac, ip, gateway, dns⟩, ?_⟩
      rw [config, found, Option.getD_some]
      exact Option.some.inj made
    · rintro ⟨strict, rfl⟩
      obtain ⟨name, found, matched⟩ := strict.interfaceName
      refine ⟨name, found, (), matched, _, ⟨strict.macAddress, rfl⟩, _, ⟨strict.ipAddress, rfl⟩, _,
        ⟨strict.gateway, rfl⟩, _, ⟨strict.dnsServers, rfl⟩, ?_⟩
      rw [config, found, Option.getD_some]
  · rw [pydantic, if_pos known]
    exact iff_of_false (by simp) fun h => known h.1.known

theorem args_agree_iff : Agree args.pydantic args.stdlib ↔ (args.Sound → args.Plain) := by
  rw [agree_iff_of_eq_some_iff (fun _ => pydantic_eq_some_iff) (fun _ => stdlib_eq_some_iff), strict_iff,
    and_iff_left_iff_imp]

end NetworkArgs

end network

namespace VMwareSourceArgs

variable {args : VMwareSourceArgs}

/-- What both validators make of the keywords they take. -/
def made (args : VMwareSourceArgs) : VMwareSourceConfig :=
  args.config (args.host.getD []) (args.username.getD []) (args.password.getD [])

theorem port_iff : (args.port.all fun port => decide (1 ≤ port) && decide (port ≤ 65535)) = true ↔
    ∀ port, args.port = some port → 1 ≤ port ∧ port ≤ 65535 := by
  cases args.port with
  | none => simp
  | some port => simp

theorem made_port_iff : (1 ≤ args.made.port ∧ args.made.port ≤ 65535) ↔
    ∀ port, args.port = some port → 1 ≤ port ∧ port ≤ 65535 := by
  rw [made, config]
  cases args.port with
  | none => simp
  | some port => simp

theorem errors_eq_nil_iff : args.made.errors = [] ↔
    (given args.vmName.join = true ∨ given args.vmUuid.join = true) ∧
      ∀ port, args.port = some port → 1 ≤ port ∧ port ≤ 65535 := by
  rw [VMwareSourceConfig.errors, List.append_eq_nil_iff]
  refine and_congr ?_ ?_
  · have name : args.made.vmName = args.vmName.join := rfl
    have uuid : args.made.vmUuid = args.vmUuid.join := rfl
    rw [name, uuid]
    cases given args.vmName.join with
    | true => simp
    | false =>
      cases given args.vmUuid.join with
      | true => simp
      | false => simp
  · by_cases port : 1 ≤ args.made.port ∧ args.made.port ≤ 65535
    · rw [if_pos port]
      exact iff_of_true rfl (made_port_iff.mp port)
    · rw [if_neg port]
      exact iff_of_false (List.cons_ne_nil _ _) fun h => port (made_port_iff.mpr h)

/-- A configuration is made when nothing required is missing and nothing unknown is passed. -/
theorem complete_or (args : VMwareSourceArgs) :
    (∃ host username password, args.host = some host ∧ args.username = some username ∧
      args.password = some password ∧ args.unknown = []) ∨
    args.stdlib = .error .typeError ∧ args.pydantic = none ∧ ¬args.Sound := by
  have incomplete (h : args.host = none ∨ args.username = none ∨ args.password = none) : ¬args.Sound := by
    rintro ⟨-, host, username, password, -⟩
    rcases h with h | h | h
    · rw [h] at host
      cases host
    · rw [h] at username
      cases username
    · rw [h] at password
      cases password
  rcases host : args.host with _ | h
  · exact .inr ⟨by simp [stdlib, host], by simp [pydantic, host], incomplete (.inl host)⟩
  rcases username : args.username with _ | u
  · exact .inr ⟨by simp [stdlib, username], by simp [pydantic, username], incomplete (.inr (.inl username))⟩
  rcases password : args.password with _ | p
  · exact .inr ⟨by simp [stdlib, password], by simp [pydantic, password], incomplete (.inr (.inr password))⟩
  by_cases known : args.unknown = []
  · exact .inl ⟨h, u, p, rfl, rfl, rfl, known⟩
  · refine .inr ⟨?_, if_pos known, fun sound => known sound.known⟩
    simp [stdlib, host, username, password, known]

theorem stdlib_eq_some_iff {c : VMwareSourceConfig} : args.stdlib.toOption = some c ↔
    (args.Sound ∧ (given args.vmName.join = true ∨ given args.vmUuid.join = true)) ∧ args.made = c := by
  rcases complete_or args with ⟨host, username, password, hhost, husername, hpassword, known⟩ | ⟨refused, -, unsound⟩
  · have built : args.stdlib = raiseIf args.made.errors args.made := by
      simp [stdlib, made, hhost, husername, hpassword, known]
    rw [built, raiseIf_eq_some_iff, errors_eq_nil_iff]
    refine and_congr ⟨?_, ?_⟩ Iff.rfl
    · rintro ⟨identified, port⟩
      exact ⟨⟨known, hhost ▸ rfl, husername ▸ rfl, hpassword ▸ rfl, port⟩, identified⟩
    · rintro ⟨sound, identified⟩
      exact ⟨identified, sound.port⟩
  · rw [refused]
    exact iff_of_false (fun h => nomatch h) fun h => unsound h.1.1

theorem pydantic_eq_some_iff {c : VMwareSourceConfig} :
    args.pydantic = some c ↔ (args.Sound ∧ args.vmName ≠ some none) ∧ args.made = c := by
  rcases complete_or args with ⟨host, username, password, hhost, husername, hpassword, known⟩ | ⟨-, refused, unsound⟩
  · rw [pydantic, if_neg (not_not_intro known)]
    simp only [hhost, husername, hpassword, Option.bind_eq_bind, Option.bind_some, Option.bind_eq_some_iff,
      guard_eq_some_iff, port_iff, made, Option.getD_some]
    constructor
    · rintro ⟨_, named, _, port, built⟩
      exact ⟨⟨⟨known, hhost ▸ rfl, husername ▸ rfl, hpassword ▸ rfl, port⟩, named⟩, Option.some.inj built⟩
    · rintro ⟨⟨sound, named⟩, built⟩
      exact ⟨(), named, (), sound.port, congrArg some built⟩
  · rw [refused]
    exact iff_of_false (by simp) fun h => unsound h.1.1

theorem identified_iff : args.Identified ↔
    (args.vmName ≠ some none ↔ given args.vmName.join = true ∨ given args.vmUuid.join = true) := by
  rw [Identified]
  rcases args.vmName with _ | _ | _ | ⟨c, name⟩
  · simp [given]
  · simp [given]
  · simp [given]
  · simp [given]

theorem args_agree_iff : SourceAgree args ↔ (args.Sound → args.Identified) := by
  have same : Agree args.pydantic args.stdlib ↔ (args.Sound → args.Identified) := by
    rw [agree_iff_of_eq_some_iff (fun _ => pydantic_eq_some_iff) (fun _ => stdlib_eq_some_iff), and_congr_right_iff]
    exact imp_congr_right fun _ => identified_iff.symm
  refine ⟨fun source => same.mp source.agree, fun h => ⟨same.mpr h, ?_, ?_⟩⟩
  · intro noName noUuid
    have refused : args.stdlib.toOption = none := by
      rw [Option.eq_none_iff_forall_ne_some]
      intro c taken
      rcases (stdlib_eq_some_iff.mp taken).1.2 with name | uuid
      · rw [noName] at name
        cases name
      · rw [noUuid] at uuid
        cases uuid
    exact ⟨(same.mpr h).trans refused, refused⟩
  · intro sound _ uuid
    have taken : args.stdlib.toOption = some args.made := stdlib_eq_some_iff.mpr ⟨⟨sound, .inr uuid⟩, rfl⟩
    rw [same.mpr h, taken]
    exact ⟨rfl, rfl⟩

end VMwareSourceArgs

namespace DiskArgs

variable {fs : FileSystem} {args : DiskArgs fs}

theorem errors_eq_nil_iff (path : List Char ⊕ fs.Path) : (args.config path).errors = [] ↔
    (fs.isThere (toPath path) && fs.isFile (toPath path)) = true ∧
      (args.outputFormat.all fun format => decide (format ∈ outputFormats)) = true ∧
      sizeFits args.sizeGb.join = true := by
  rw [DiskConfig.errors, List.append_eq_nil_iff, List.append_eq_nil_iff, and_assoc]
  refine and_congr ?_ (and_congr ?_ ?_)
  · have source : (args.config path).sourcePath = toPath path := rfl
    rw [source]
    cases fs.isThere (toPath path) with
    | false => simp
    | true =>
      cases fs.isFile (toPath path) with
      | false => simp
      | true => simp
  · have format : (args.config path).outputFormat = args.outputFormat.getD "qcow2".toList := rfl
    rw [format]
    rcases args.outputFormat with _ | format
    · exact iff_of_true (if_pos (List.mem_cons_self ..)) rfl
    · rw [Option.getD_some, Option.all_some, decide_eq_true_iff]
      by_cases known : format ∈ outputFormats
      · exact iff_of_true (if_pos known) known
      · rw [if_neg known]
        exact iff_of_false (List.cons_ne_nil _ _) known
  · have size : (args.config path).sizeGb = args.sizeGb.join := rfl
    rw [size]
    cases sizeFits args.sizeGb.join with
    | false => simp
    | true => simp

theorem agree : Agree args.pydantic args.stdlib := by
  cases path : args.sourcePath with
  | none =>
    by_cases known : args.unknown = []
    · simp [Agree, pydantic, stdlib, path, known, Except.toOption]
    · simp [Agree, pydantic, stdlib, path, known, Except.toOption]
  | some path' =>
    by_cases known : args.unknown = []
    · have built : args.stdlib = raiseIf (args.config path').errors (args.config path') := by
        simp [stdlib, path, known]
      refine Option.ext fun c => ?_
      rw [built, raiseIf_eq_some_iff, errors_eq_nil_iff, pydantic, if_neg (not_not_intro known), path]
      simp only [Option.bind_eq_bind, Option.bind_some, Option.bind_eq_some_iff, guard_eq_some_iff]
      constructor
      · rintro ⟨_, file, _, format, _, size, made⟩
        exact ⟨⟨file, format, size⟩, Option.some.inj made⟩
      · rintro ⟨⟨file, format, size⟩, made⟩
        exact ⟨(), file, (), format, (), size, congrArg some made⟩
    · simp [Agree, pydantic, stdlib, path, known, Except.toOption]

end DiskArgs

section validators

variable {fs : FileSystem}

/-- The two sets of validators agree on everything exactly when no right configuration has a name or an address that
ends in a newline, an empty address, an `ip_address` with more than digits in it or `dns_servers=None`, and none of a
source relies on a name that is not passed or is empty, or passes `None` for it next to a UUID. -/
theorem validators_agree_iff (net : NetworkArgs) (src : VMwareSourceArgs) (disk : DiskArgs fs) :
    (Agree net.pydantic net.stdlib ∧ SourceAgree src ∧ Agree disk.pydantic disk.stdlib) ↔
      (net.Sound → net.Plain) ∧ (src.Sound → src.Identified) := by
  rw [NetworkArgs.args_agree_iff, VMwareSourceArgs.args_agree_iff, and_iff_left DiskArgs.agree]

end validators

/-- A source with only the required keywords. -/
def anonymous : VMwareSourceArgs where
  host := some "vcenter".toList
  username := some "root".toList
  password := some "secret".toList

/-- pydantic takes a source with neither a name nor a UUID. -/
theorem not_sourceAgree_anonymous : ¬SourceAgree anonymous := by
  intro source
  have taken : anonymous.pydantic = some anonymous.made := rfl
  have refused := (source.neither rfl rfl).1
  rw [taken] at refused
  cases refused

end H2kvm.Config
