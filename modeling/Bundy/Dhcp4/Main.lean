import Bundy.Dhcp4.Strtol

/-!
`main` of `b10-dhcp4` (`bin/dhcp4/main.cc`): the loop over what `getopt(argc, argv, "vp:")`
returns, the check that no operand is left, then the server. The input is what `getopt`
returns, one result per call before it returns -1, with `optarg` at that call; the number of
operands is `argc - optind`; `serverRun` is what constructing and running
`ControlledDhcpv4Srv` on a port throws, if anything. `usage()` writes its three lines to
`cerr` and exits with `EXIT_FAILURE`.
-/

namespace Bundy.Dhcp4

/-- `DHCP4_SERVER_PORT` of `dhcp/dhcp4.h`. -/
def dhcp4ServerPort : Int := 67

def exitSuccess : Nat := 0

def exitFailure : Nat := 1

def usageLines : List String :=
  ["Usage:  b10-dhcp4 [-v]", "\t-v: verbose output",
    "\t-p number: specify non-standard port number 1-65535 (useful for testing only)"]

def portError (optarg : String) : List String :=
  ("Failed to parse port number: [" ++ optarg ++ "], 1-65535 allowed.") :: usageLines

structure GetoptResult where
  ch : Char
  optarg : String
  deriving DecidableEq

structure Options where
  verboseMode : Bool
  portNumber : Int

/-- `port_number = strtol(optarg, NULL, 10)`. -/
def portNumberOf (optarg : String) : Int := toInt (strtol optarg)

/-- One pass of the switch of the option loop: the options so far, or what is written to
`cerr` before the process exits. -/
def option (o : Options) (r : GetoptResult) : Except (List String) Options :=
  match r.ch with
  | 'v' => .ok { o with verboseMode := true }
  | 'p' =>
    if portNumberOf r.optarg = 0 then .error (portError r.optarg)
    else .ok { o with portNumber := portNumberOf r.optarg }
  | _ => .error usageLines

def options (rs : List GetoptResult) : Except (List String) Options :=
  rs.foldlM option ⟨false, dhcp4ServerPort⟩

inductive Severity where
  | debug
  | info
  deriving DecidableEq

structure Process where
  cout : List String
  cerr : List String
  /-- The severity of the logger, once `main` has initialised it. -/
  severity : Option Severity
  /-- The port `ControlledDhcpv4Srv` is constructed with, if `main` gets that far. -/
  server : Option Int
  status : Nat

def main (rs : List GetoptResult) (operands pid : Nat) (serverRun : Int → Option String) :
    Process :=
  match options rs with
  | .error lines => ⟨[], lines, none, none, exitFailure⟩
  | .ok o =>
    let severity := if o.verboseMode then Severity.debug else Severity.info
    let banner := "b10-dhcp4: My pid=" ++ toString pid ++ ", binding to port " ++
      toString o.portNumber ++ ", verbose " ++ if o.verboseMode then "yes" else "no"
    if operands > 0 then ⟨[banner], usageLines, some severity, none, exitFailure⟩
    else
      let cout := [banner, "[b10-dhcp4] Initiating DHCPv4 server operation."]
      match serverRun o.portNumber with
      | none => ⟨cout, [], some severity, some o.portNumber, exitSuccess⟩
      | some what =>
        ⟨cout, ["[b10-dhcp4] Server failed: " ++ what], some severity, some o.portNumber,
          exitFailure⟩

def GetoptResult.rejected (r : GetoptResult) : Bool :=
  !(r.ch == 'v' || r.ch == 'p' && portNumberOf r.optarg != 0)

def GetoptResult.errorLines (r : GetoptResult) : List String :=
  if r.ch = 'p' then portError r.optarg else usageLines

def lastPortNumber (rs : List GetoptResult) (d : Int) : Int :=
  ((rs.filter (·.ch == 'p')).getLast?.map (portNumberOf ·.optarg)).getD d

theorem lastPortNumber_cons (r : GetoptResult) (rs : List GetoptResult) (d : Int) :
    lastPortNumber (r :: rs) d =
      lastPortNumber rs (if r.ch = 'p' then portNumberOf r.optarg else d) := by
  unfold lastPortNumber
  by_cases hp : r.ch = 'p'
  · simp only [List.filter_cons, hp, beq_self_eq_true, if_true, List.getLast?_cons]
    cases (rs.filter (·.ch == 'p')).getLast? <;> rfl
  · simp [List.filter_cons, hp]

theorem option_eq (o : Options) (r : GetoptResult) :
    option o r = if r.rejected then .error r.errorLines
      else .ok ⟨o.verboseMode || r.ch == 'v',
        if r.ch = 'p' then portNumberOf r.optarg else o.portNumber⟩ := by
  unfold option
  split
  · next hv => simp [GetoptResult.rejected, hv]
  · next hp => split <;> simp_all [GetoptResult.rejected, GetoptResult.errorLines]
  · next hv hp =>
    have hv' : r.ch ≠ 'v' := hv
    have hp' : r.ch ≠ 'p' := hp
    simp [GetoptResult.rejected, GetoptResult.errorLines, hv', hp']

theorem foldlM_option (rs : List GetoptResult) (o : Options) :
    rs.foldlM option o = match rs.find? GetoptResult.rejected with
      | some r => .error r.errorLines
      | none => .ok ⟨o.verboseMode || rs.any (·.ch == 'v'), lastPortNumber rs o.portNumber⟩ := by
  induction rs generalizing o with
  | nil => simp [lastPortNumber, pure, Except.pure]
  | cons r rs ih =>
    rw [List.foldlM_cons, option_eq, lastPortNumber_cons, List.find?_cons, List.any_cons]
    cases hr : r.rejected
    · simp only [Bool.false_eq_true, if_false, Except.bind, bind, ih, Bool.or_assoc]
    · rfl

/-- The option loop of `main`: it exits at the first `getopt` result that is neither `-v` nor
a `-p` whose argument reads as a non-zero `int`, writing that result's lines to `cerr`;
otherwise verbose mode is whether `-v` was given, and the port is that of the last `-p`, or
`DHCP4_SERVER_PORT`. -/
theorem options_eq (rs : List GetoptResult) :
    options rs = match rs.find? GetoptResult.rejected with
      | some r => .error r.errorLines
      | none => .ok ⟨rs.any (·.ch == 'v'), lastPortNumber rs dhcp4ServerPort⟩ := by
  rw [options, foldlM_option, Bool.false_or]

example : portNumberOf "4294967363" = 67 ∧ portNumberOf "4294967296" = 0 := by decide

theorem lastPortNumber_ne_zero {rs : List GetoptResult} {d : Int} (hd : d ≠ 0)
    (h : rs.find? GetoptResult.rejected = none) : lastPortNumber rs d ≠ 0 := by
  unfold lastPortNumber
  cases hl : (rs.filter (·.ch == 'p')).getLast? with
  | none => exact hd
  | some r =>
    obtain ⟨hr, hp⟩ := List.mem_filter.mp (List.mem_of_getLast?_eq_some hl)
    have := List.find?_eq_none.mp h r hr
    simp only [GetoptResult.rejected, beq_iff_eq] at hp this
    simpa [hp] using this

/-- `main` constructs the server exactly when the option loop accepts every `getopt` result and
no operand is left, on the port of the last `-p` or `DHCP4_SERVER_PORT`, which is never 0. It
exits with `EXIT_SUCCESS` exactly when it has constructed the server and the server has run
without throwing. -/
theorem main_server (rs : List GetoptResult) (operands pid : Nat)
    (serverRun : Int → Option String) :
    (main rs operands pid serverRun).server =
        (if rs.find? GetoptResult.rejected = none ∧ operands = 0 then
          some (lastPortNumber rs dhcp4ServerPort) else none) ∧
      (∀ port, (main rs operands pid serverRun).server = some port → port ≠ 0) ∧
      ((main rs operands pid serverRun).status = exitSuccess ↔
        ∃ port, (main rs operands pid serverRun).server = some port ∧ serverRun port = none) := by
  unfold main
  rw [options_eq]
  cases hf : rs.find? GetoptResult.rejected with
  | some r => simp [exitFailure, exitSuccess]
  | none =>
    have hne := lastPortNumber_ne_zero (by decide : dhcp4ServerPort ≠ 0) hf
    by_cases ho : operands > 0
    · simp [ho, Nat.pos_iff_ne_zero.mp ho, exitFailure, exitSuccess]
    · have h0 : operands = 0 := by omega
      cases hs : serverRun (lastPortNumber rs dhcp4ServerPort) <;>
        simp [h0, hs, hne, exitFailure, exitSuccess]

/-- `main` starts the server on every non-zero `int` port given as `-p` in decimal, also on the
ports outside 1-65535 that its usage text and its error message name as the allowed ones. -/
theorem main_port (n : Int) (h0 : n ≠ 0) (hlo : -2 ^ 31 ≤ n) (hhi : n < 2 ^ 31) (pid : Nat)
    (serverRun : Int → Option String) :
    (main [⟨'p', toString n⟩] 0 pid serverRun).server = some n := by
  have hport : portNumberOf (toString n) = n := by
    rw [portNumberOf, strtol_toString n (by rw [longMin]; omega) (by rw [longMax]; omega),
      toInt_of_range hlo hhi]
  have hr : (⟨'p', toString n⟩ : GetoptResult).rejected = false := by
    simp [GetoptResult.rejected, hport, h0]
  rw [(main_server _ _ _ _).1]
  simp [hr, lastPortNumber, hport]

theorem main_port_70000 :
    (70000 : Int) ≠ 0 ∧ -2 ^ 31 ≤ (70000 : Int) ∧ (70000 : Int) < 2 ^ 31 ∧
      (main [⟨'p', toString (70000 : Int)⟩] 0 4242 fun _ => none).server = some 70000 :=
  ⟨by decide, by decide, by decide, main_port 70000 (by decide) (by decide) (by decide) 4242 _⟩

end Bundy.Dhcp4
