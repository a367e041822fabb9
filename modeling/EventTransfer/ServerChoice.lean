import EventTransfer.DiscoveryReplies
import EventTransfer.Lib.LinkedHeap

/-!
# Which system is opened

`et_findserver2` sends its packets several times.  After each try it puts the responses at the
end of its list and looks for one to return, by the host the user has asked for and by the
policy.  A list in which nothing is found is kept for the next try.

* `select…` — what is done with the list, for each kind of host.
* `findserver2` — the tries.
* `FollowsPolicy` — what is expected of the answer: by `ET_POLICY_LOCAL` a local system "if
  there is one, and if not, the first responding system", by `ET_POLICY_ERROR` an error for more
  than one host, and no timeout where there is a response.
* `findserver2_followsPolicy_iff` — when the answer is the expected one.
* `removeResponseFromList_eq` — the response that is handed out is none of those that are freed.

A response is told from that of another host by its uname.
-/

namespace EventTransfer

open LinkedHeap Wire

namespace ServerChoice

/-! ## The choice -/

/-- `ET_POLICY_FIRST`, `ET_POLICY_LOCAL` and `ET_POLICY_ERROR`. -/
inductive Policy
  | first
  | locally
  | error
  deriving DecidableEq

/-- The host of the configuration.  For a name and for `ET_HOST_LOCAL` the addresses have been
looked up. -/
inductive HostSetting
  | specific (ipAddrs : List CStr)
  | anywhere
  | remote

/-- What is returned about a system. -/
structure Server where
  ethost : Option CStr
  port : Word
  inetaddr : Option Word

/-- The server by the `n`th address of a response. -/
def server (answer : Response) (n : ℕ) : Server :=
  ⟨answer.ipaddrs[n]?, answer.port, answer.addrs[n]?⟩

/-- The return values; `answer` is what `allETinfo` is set to. -/
inductive Outcome
  | found (answer : Response) (server : Server)
  | tooMany
  | timeout

/-- The uname as a string. -/
def uname (answer : Response) : CStr := CStr.ofBuffer answer.uname

/-- The first address of a response that is one of the given ones. -/
def firstMatch (ipAddrs : List CStr) (answer : Response) : Option ℕ :=
  answer.ipaddrs.findIdx? (· ∈ ipAddrs)

/-- The host is local or its name is known. -/
def selectSpecific (ipAddrs : List CStr) : List Response → Option Outcome
  | [] => none
  | answer :: rest =>
      match firstMatch ipAddrs answer with
      | some n => some (.found answer (server answer n))
      | none => selectSpecific ipAddrs rest

/-- "check to see if all of these responses are from the same host by comparing uname values" -/
def sameHost (firstUname : CStr) : List Response → Bool
  | [] => true
  | answer :: rest => if firstUname = uname answer then sameHost firstUname rest else false

/-- The loop for `ET_POLICY_LOCAL`: `j` responses have been looked at. -/
def localLoop (localuname : CStr) (first : Response) (numresponses : ℕ) :
    ℕ → List Response → Option Response
  | _, [] => none
  | j, answer :: rest =>
      if localuname = uname answer then some answer
      else if j + 1 = numresponses - 1 then some first
      else localLoop localuname first numresponses (j + 1) rest

/-- The host may be anywhere. -/
def selectAnywhere (localuname : CStr) (policy : Policy) : List Response → Option Outcome
  | [] => none
  | first :: rest =>
      if policy = .error ∧ (first :: rest).length > 1 then
        if sameHost (uname first) rest then some (.found first (server first 0))
        else some .tooMany
      else
        match policy with
        | .first | .error => some (.found first (server first 0))
        | .locally =>
            (localLoop localuname first (first :: rest).length 0 (first :: rest)).map fun answer =>
              .found answer (server answer 0)

/-- `remoteresponses` and `first_remote`, which are kept from one try to the next. -/
abbrev Remotes := ℕ × Option Response

/-- The loop over the responses for a remote host. -/
def remoteLoop (localuname : CStr) (policy : Policy) :
    List Response → Remotes → Option Response × Remotes
  | [], remotes => (none, remotes)
  | answer :: rest, (remoteresponses, firstRemote) =>
      if localuname = uname answer then
        remoteLoop localuname policy rest (remoteresponses, firstRemote)
      else
        let remotes := (remoteresponses + 1, firstRemote.or (some answer))
        -- "The ET_POLICY_LOCAL doesn't make any sense here so default to ET_POLICY_FIRST"
        if policy = .first ∨ policy = .locally then (some answer, remotes)
        else remoteLoop localuname policy rest remotes

/-- The host must be remote. -/
def selectRemote (localuname : CStr) (policy : Policy) (answers : List Response)
    (remotes : Remotes) : Option Outcome × Remotes :=
  match remoteLoop localuname policy answers remotes with
  | (some answer, remotes) => (some (.found answer (server answer 0)), remotes)
  | (none, remotes) =>
      if policy = .error then
        if remotes.1 = 1 then
          (remotes.2.map fun answer => .found answer (server answer 0), remotes)
        else if remotes.1 > 1 then
          match answers with
          | [] => (none, remotes)
          | first :: rest =>
              if sameHost (uname first) rest then (some (.found first (server first 0)), remotes)
              else (some .tooMany, remotes)
        else (none, remotes)
      else (none, remotes)

/-- What is done with the list of responses after a try. -/
def select (localuname : CStr) (policy : Policy) (answers : List Response) (remotes : Remotes) :
    HostSetting → Option Outcome × Remotes
  | .specific ipAddrs => (selectSpecific ipAddrs answers, remotes)
  | .anywhere => (selectAnywhere localuname policy answers, remotes)
  | .remote => selectRemote localuname policy answers remotes

/-- The tries that are left, by the responses that come in each.  Without any the packets are
sent again at once. -/
def tryAll (localuname : CStr) (setting : HostSetting) (policy : Policy) :
    List (List Response) → List Response → Remotes → Outcome × List Response
  | [], answers, _ => (.timeout, answers)
  | [] :: tries, answers, remotes => tryAll localuname setting policy tries answers remotes
  | (response :: more) :: tries, answers, remotes =>
      let answers := answers ++ response :: more
      match select localuname policy answers remotes setting with
      | (some outcome, _) => (outcome, answers)
      | (none, remotes) => tryAll localuname setting policy tries answers remotes

/-- `et_findserver2`, with the responses that it has received when it returns. -/
def findserver2 (localuname : CStr) (setting : HostSetting) (policy : Policy)
    (tries : List (List Response)) : Outcome × List Response :=
  tryAll localuname setting policy tries [] (0, none)

/-! ## What is expected -/

/-- A response from the host of the client. -/
def IsLocal (localuname : CStr) (answer : Response) : Prop := uname answer = localuname

instance (localuname : CStr) : DecidablePred (IsLocal localuname) := fun _ =>
  inferInstanceAs (Decidable (_ = _))

/-- **The responses that the host setting admits.** -/
def Admits (localuname : CStr) : HostSetting → Response → Prop
  | .specific ipAddrs, answer => ∃ ip ∈ answer.ipaddrs, ip ∈ ipAddrs
  | .anywhere, _ => True
  | .remote, answer => ¬ IsLocal localuname answer

instance (localuname : CStr) (setting : HostSetting) :
    DecidablePred (Admits localuname setting) := fun answer =>
  match setting with
  | .specific ipAddrs => inferInstanceAs (Decidable (∃ ip ∈ answer.ipaddrs, ip ∈ ipAddrs))
  | .anywhere => inferInstanceAs (Decidable True)
  | .remote => inferInstanceAs (Decidable (¬ _))

def admitted (localuname : CStr) (setting : HostSetting) (answers : List Response) :
    List Response :=
  answers.filter fun answer => Admits localuname setting answer

/-- All responses are from the same host. -/
def OneHost (answers : List Response) : Prop := ∀ a ∈ answers, ∀ b ∈ answers, uname a = uname b

/-- **The outcome is the expected one** for the responses received. -/
structure FollowsPolicy (localuname : CStr) (setting : HostSetting) (policy : Policy)
    (answers : List Response) (outcome : Outcome) : Prop where
  heard : admitted localuname setting answers ≠ [] → outcome ≠ .timeout
  admits : ∀ answer server, outcome = .found answer server →
    answer ∈ admitted localuname setting answers
  first : policy = .first → ∀ answer ∈ (admitted localuname setting answers).head?,
    ∃ server, outcome = .found answer server
  locally : policy = .locally → admitted localuname setting answers ≠ [] →
    ∃ answer server, outcome = .found answer server ∧ (IsLocal localuname answer ∨
      (admitted localuname setting answers).head? = some answer ∧
        ∀ a ∈ admitted localuname setting answers, ¬ IsLocal localuname a)
  tooMany : policy = .error →
    (outcome = .tooMany ↔ ¬ OneHost (admitted localuname setting answers))

/-- When there is something to choose: a response that is admitted, and for a local system
anywhere two responses or a local one. -/
def Decides (localuname : CStr) (setting : HostSetting) (policy : Policy)
    (answers : List Response) : Bool :=
  match setting, policy with
  | .anywhere, .locally => answers.length > 1 ∨ ∃ a ∈ answers, IsLocal localuname a
  | setting, _ => ∃ a ∈ answers, Admits localuname setting a

/-- The responses of the tries up to the first after which there is something to choose. -/
def heardUntil (decides : List Response → Bool) : List Response → List (List Response) →
    List Response
  | answers, [] => answers
  | answers, responses :: tries =>
      if decides (answers ++ responses) then answers ++ responses
      else heardUntil decides (answers ++ responses) tries

/-- **The condition on the responses.**  For a host that is known, whose policy is not looked
at: its addresses are those of one host, or the first response is local if any is.  For a local
system anywhere: a response that comes alone is local, and the last of several is not the only
local one.  For an error about remote hosts: if a local system has responded too, then one
remote response has come, or responses of several remote hosts. -/
def Choosable (localuname : CStr) (answers : List Response) : HostSetting → Policy → Prop
  | .specific ipAddrs, .error => OneHost (admitted localuname (.specific ipAddrs) answers)
  | .specific ipAddrs, .locally =>
      (∃ a ∈ admitted localuname (.specific ipAddrs) answers, IsLocal localuname a) →
        ∀ a ∈ (admitted localuname (.specific ipAddrs) answers).head?, IsLocal localuname a
  | .anywhere, .locally => ∀ a ∈ answers.getLast?,
      if answers.length = 1 then IsLocal localuname a
      else IsLocal localuname a → ∃ b ∈ answers.dropLast, IsLocal localuname b
  | .remote, .error => (∃ a ∈ answers, IsLocal localuname a) →
      (admitted localuname .remote answers).length > 1 →
        ¬ OneHost (admitted localuname .remote answers)
  | _, _ => True

/-! ## The choice in plain terms -/

variable {localuname : CStr} {setting : HostSetting} {policy : Policy}
  {answers : List Response} {outcome : Outcome}

@[simp] theorem admitted_anywhere (localuname : CStr) (answers : List Response) :
    admitted localuname .anywhere answers = answers :=
  List.filter_eq_self.mpr fun _ _ => decide_eq_true trivial

theorem head?_admitted (localuname : CStr) (setting : HostSetting) (answers : List Response) :
    (admitted localuname setting answers).head? =
      answers.find? fun a => Admits localuname setting a :=
  List.head?_filter ..

theorem mem_admitted {a : Response} : a ∈ admitted localuname setting answers ↔
    a ∈ answers ∧ Admits localuname setting a := by
  rw [admitted, List.mem_filter, decide_eq_true_eq]

theorem admitted_cons (a : Response) : admitted localuname setting (a :: answers) =
    if Admits localuname setting a then a :: admitted localuname setting answers
    else admitted localuname setting answers := by
  rw [admitted, List.filter_cons]
  simp only [decide_eq_true_eq]
  rfl

theorem admitted_eq_nil_iff : admitted localuname setting answers = [] ↔
    ∀ a ∈ answers, ¬ Admits localuname setting a := by
  rw [admitted, List.filter_eq_nil_iff]
  simp only [decide_eq_true_eq]

theorem selectSpecific_eq (ipAddrs : List CStr) (answers : List Response) :
    selectSpecific ipAddrs answers =
      (admitted localuname (.specific ipAddrs) answers).head?.map fun answer =>
        .found answer (server answer ((firstMatch ipAddrs answer).getD 0)) := by
  rw [head?_admitted]
  induction answers with
  | nil => rfl
  | cons answer rest ih =>
      have hmatch : (firstMatch ipAddrs answer).isSome =
          decide (Admits localuname (.specific ipAddrs) answer) := by
        rw [firstMatch, List.findIdx?_isSome, Bool.eq_iff_iff, List.any_eq_true, decide_eq_true_eq]
        simp only [decide_eq_true_eq]
        rfl
      rw [selectSpecific]
      cases hm : firstMatch ipAddrs answer with
      | some n =>
          rw [hm] at hmatch
          rw [List.find?_cons, ← hmatch]
          dsimp only [Option.isSome, Option.map_some]
          rw [hm, Option.getD_some]
      | none =>
          rw [hm] at hmatch
          rw [List.find?_cons, ← hmatch]
          exact ih

theorem sameHost_iff {name : CStr} : sameHost name answers = true ↔
    ∀ a ∈ answers, uname a = name := by
  induction answers with
  | nil => exact iff_of_true rfl nofun
  | cons answer rest ih =>
      rw [sameHost, List.forall_mem_cons]
      split
      case isTrue h => rw [ih, and_iff_right h.symm]
      case isFalse h => exact iff_of_false nofun fun hall => h hall.1.symm

theorem oneHost_cons_iff {first : Response} {rest : List Response} :
    OneHost (first :: rest) ↔ sameHost (uname first) rest = true := by
  rw [sameHost_iff]
  constructor
  · exact fun h a ha => h a (List.mem_cons_of_mem _ ha) first List.mem_cons_self
  · intro h
    have hall : ∀ a ∈ first :: rest, uname a = uname first :=
      List.forall_mem_cons.mpr ⟨rfl, h⟩
    exact fun a ha b hb => (hall a ha).trans (hall b hb).symm

/-- The loop for a local system does not look at the last of the responses. -/
theorem localLoop_eq {first : Response} {n j : ℕ} (hn : j + answers.length = n)
    (htwo : 2 ≤ answers.length) :
    localLoop localuname first n j answers =
      some ((answers.dropLast.find? fun a => IsLocal localuname a).getD first) := by
  induction answers generalizing j with
  | nil => cases htwo
  | cons answer rest ih =>
      cases rest with
      | nil => exact absurd htwo (by simp)
      | cons next rest =>
          rw [localLoop, List.dropLast_cons_cons]
          split
          case isTrue h =>
            have hlocal : IsLocal localuname answer := h.symm
            rw [List.find?_cons, decide_eq_true hlocal]
            rfl
          case isFalse h =>
          have hlocal : ¬ IsLocal localuname answer := fun hl => h hl.symm
          rw [List.find?_cons, decide_eq_false hlocal]
          dsimp only
          simp only [List.length_cons] at hn
          cases rest with
          | nil =>
              simp only [List.length_nil] at hn
              rw [if_pos (by omega)]
              rfl
          | cons last rest =>
              simp only [List.length_cons] at hn
              rw [if_neg (by omega)]
              exact ih (by simp only [List.length_cons]; omega) (by simp)

theorem selectAnywhere_locally_one (answer : Response) :
    selectAnywhere localuname .locally [answer] =
      if IsLocal localuname answer then some (.found answer (server answer 0)) else none := by
  by_cases h : localuname = uname answer
  · rw [if_pos (show IsLocal localuname answer from h.symm)]
    simp [selectAnywhere, localLoop, h]
  · rw [if_neg fun hl : IsLocal localuname answer => h hl.symm]
    simp [selectAnywhere, localLoop, h]

theorem selectAnywhere_locally {first next : Response} {rest : List Response} :
    selectAnywhere localuname .locally (first :: next :: rest) =
      let answer :=
        ((first :: next :: rest).dropLast.find? fun a => IsLocal localuname a).getD first
      some (.found answer (server answer 0)) := by
  have hpolicy : ¬ (Policy.locally = .error ∧ (first :: next :: rest).length > 1) := nofun
  rw [selectAnywhere, if_neg hpolicy, localLoop_eq (Nat.zero_add _) (by simp)]
  rfl

/-- Without the error policy the first remote response is taken. -/
theorem remoteLoop_of_ne_error (hpolicy : policy ≠ .error) (answers : List Response)
    (remotes : Remotes) :
    (remoteLoop localuname policy answers remotes).1 =
        (admitted localuname .remote answers).head? ∧
      (admitted localuname .remote answers = [] →
        (remoteLoop localuname policy answers remotes).2 = remotes) := by
  induction answers with
  | nil => exact ⟨rfl, fun _ => rfl⟩
  | cons answer rest ih =>
      obtain ⟨remoteresponses, firstRemote⟩ := remotes
      rw [remoteLoop]
      split
      case isTrue h =>
        have hno : ¬ Admits localuname .remote answer := fun hr => hr h.symm
        rw [admitted_cons, if_neg hno]
        exact ih
      case isFalse h =>
        have hyes : Admits localuname .remote answer := fun hl => h hl.symm
        have htake : policy = .first ∨ policy = .locally := by
          cases policy with
          | first => exact .inl rfl
          | locally => exact .inr rfl
          | error => exact absurd rfl hpolicy
        rw [admitted_cons, if_pos hyes]
        dsimp only
        rw [if_pos htake]
        exact ⟨rfl, nofun⟩

/-- With the error policy the remote responses are counted. -/
theorem remoteLoop_error (remoteresponses : ℕ) (firstRemote : Option Response) :
    remoteLoop localuname .error answers (remoteresponses, firstRemote) =
      (none, remoteresponses + (admitted localuname .remote answers).length,
        firstRemote.or (admitted localuname .remote answers).head?) := by
  induction answers generalizing remoteresponses firstRemote with
  | nil =>
      rw [remoteLoop]
      simp [admitted]
  | cons answer rest ih =>
      rw [remoteLoop]
      split
      case isTrue h =>
        have hno : ¬ Admits localuname .remote answer := fun hr => hr h.symm
        rw [ih, admitted_cons, if_neg hno]
      case isFalse h =>
        have hyes : Admits localuname .remote answer := fun hl => h hl.symm
        show remoteLoop localuname .error rest (remoteresponses + 1, firstRemote.or (some answer)) = _
        rw [ih, admitted_cons, if_pos hyes, List.length_cons, List.head?_cons]
        refine Prod.ext rfl (Prod.ext ?_ ?_)
        · simp only
          omega
        · cases firstRemote with
          | none => simp
          | some r => simp

/-! ### The run over the tries -/

/-- The outcome for a list of responses, if nothing was found before. -/
def found? (localuname : CStr) (setting : HostSetting) (policy : Policy)
    (answers : List Response) : Option Outcome :=
  (select localuname policy answers (0, none) setting).1

theorem exists_admits_iff : (∃ a ∈ answers, Admits localuname setting a) ↔
    admitted localuname setting answers ≠ [] := by
  rw [ne_eq, admitted_eq_nil_iff]
  push Not
  rfl

/-- The outcome for remote hosts, where the policy is not the error policy. -/
theorem found?_remote (hpolicy : policy ≠ .error) :
    found? localuname .remote policy answers =
      (admitted localuname .remote answers).head?.map fun a => .found a (server a 0) := by
  obtain ⟨hloop, -⟩ := remoteLoop_of_ne_error hpolicy answers (0, none)
  unfold found? select selectRemote
  cases hr : remoteLoop localuname policy answers (0, none) with
  | mk answer remotes =>
      rw [hr] at hloop
      rw [← hloop]
      cases answer with
      | some answer => rfl
      | none => simp only [if_neg hpolicy, Option.map_none]

/-- The outcome for remote hosts with the error policy. -/
theorem found?_remote_error : found? localuname .remote .error answers =
    match admitted localuname .remote answers with
    | [] => none
    | [answer] => some (.found answer (server answer 0))
    | _ :: _ :: _ => answers.head?.map fun first =>
        if sameHost (uname first) answers.tail then .found first (server first 0) else .tooMany := by
  unfold found? select selectRemote
  rw [remoteLoop_error, Nat.zero_add]
  dsimp only
  rw [if_pos rfl]
  match admitted localuname .remote answers with
  | [] => simp
  | [answer] => simp
  | a :: b :: rest =>
      have hone : ¬ (a :: b :: rest).length = 1 := by simp
      have hmany : (a :: b :: rest).length > 1 := by simp
      rw [if_neg hone, if_pos hmany]
      cases answers with
      | nil => rfl
      | cons first rest =>
          show _ = some (if sameHost (uname first) rest then _ else _)
          dsimp only
          by_cases hs : sameHost (uname first) rest = true
          · rw [if_pos hs, if_pos hs]
          · rw [if_neg hs, if_neg hs]

/-- Nothing is kept of a try in which nothing was found. -/
theorem select_none {remotes : Remotes}
    (h : select localuname policy answers (0, none) setting = (none, remotes)) :
    remotes = (0, none) := by
  cases setting with
  | specific ipAddrs => exact (congrArg Prod.snd h).symm
  | anywhere => exact (congrArg Prod.snd h).symm
  | remote =>
      have hfound : found? localuname .remote policy answers = none := congrArg Prod.fst h
      have hnil : admitted localuname .remote answers = [] := by
        by_cases hpolicy : policy = .error
        · rw [hpolicy, found?_remote_error] at hfound
          split at hfound
          case h_1 hnil => exact hnil
          case h_2 => cases hfound
          case h_3 hmany =>
            cases answers with
            | nil => cases hmany
            | cons first rest => cases hfound
        · rwa [found?_remote hpolicy, Option.map_eq_none_iff, List.head?_eq_none_iff] at hfound
      have hsnd : remotes = (selectRemote localuname policy answers (0, none)).2 :=
        (congrArg Prod.snd h).symm
      rw [hsnd]
      by_cases hpolicy : policy = .error
      · rw [hpolicy, selectRemote, remoteLoop_error, hnil]
        rfl
      · obtain ⟨hloop, hkeep⟩ := remoteLoop_of_ne_error hpolicy answers (0, none)
        have hr : remoteLoop localuname policy answers (0, none) = (none, 0, none) := by
          refine Prod.ext ?_ (hkeep hnil)
          rw [hloop, hnil]
          rfl
        rw [selectRemote, hr]
        dsimp only
        rw [if_neg hpolicy]

/-- **When something is found.** -/
theorem isSome_found? (answers : List Response) :
    (found? localuname setting policy answers).isSome =
      Decides localuname setting policy answers := by
  have hdec (hne : Decides localuname setting policy answers =
      decide (∃ a ∈ answers, Admits localuname setting a))
      (hhead : (found? localuname setting policy answers).isSome =
        (admitted localuname setting answers).head?.isSome) :
      (found? localuname setting policy answers).isSome =
        Decides localuname setting policy answers := by
    rw [hne, hhead, Bool.eq_iff_iff, decide_eq_true_eq, exists_admits_iff, List.isSome_head?]
  cases setting with
  | specific ipAddrs =>
      refine hdec (by cases policy <;> rfl) ?_
      rw [found?, select, @selectSpecific_eq localuname, Option.isSome_map]
  | anywhere =>
      cases policy with
      | first =>
          refine hdec rfl ?_
          rw [admitted_anywhere]
          cases answers with
          | nil => rfl
          | cons first rest => rfl
      | error =>
          refine hdec rfl ?_
          rw [admitted_anywhere]
          cases answers with
          | nil => rfl
          | cons first rest =>
              rw [found?, select, selectAnywhere]
              split
              · split
                · rfl
                · rfl
              · rfl
      | locally =>
          rw [found?, select]
          match answers with
          | [] => rfl
          | [answer] =>
              rw [selectAnywhere_locally_one]
              by_cases h : IsLocal localuname answer
              · simp [Decides, h]
              · simp [Decides, h]
          | first :: next :: rest =>
              rw [selectAnywhere_locally]
              simp [Decides]
  | remote =>
      refine hdec (by cases policy <;> rfl) ?_
      by_cases hpolicy : policy = .error
      · rw [hpolicy, found?_remote_error]
        cases hadm : admitted localuname .remote answers with
        | nil => rfl
        | cons a rest =>
            cases rest with
            | nil => rfl
            | cons b rest =>
                cases answers with
                | nil => cases hadm
                | cons first more => rfl
      · rw [found?_remote hpolicy, Option.isSome_map]

/-- **The run**: the outcome is that for the responses of the tries up to the first after which
there is something to choose. -/
theorem tryAll_eq (tries : List (List Response)) (answers : List Response)
    (hnone : Decides localuname setting policy answers = false) :
    tryAll localuname setting policy tries answers (0, none) =
      let heard := heardUntil (Decides localuname setting policy) answers tries
      ((found? localuname setting policy heard).getD .timeout, heard) := by
  induction tries generalizing answers with
  | nil =>
      have hfound : found? localuname setting policy answers = none := by
        rw [← Option.not_isSome_iff_eq_none, isSome_found?, hnone]
        exact Bool.false_ne_true
      rw [tryAll, heardUntil]
      dsimp only
      rw [hfound]
      rfl
  | cons responses tries ih =>
      cases responses with
      | nil =>
          rw [tryAll, heardUntil, List.append_nil, hnone]
          exact ih answers hnone
      | cons response more =>
          rw [tryAll, heardUntil]
          dsimp only
          have hsome : (select localuname policy (answers ++ response :: more) (0, none)
              setting).1.isSome = Decides localuname setting policy (answers ++ response :: more) :=
            isSome_found? _
          cases hr : select localuname policy (answers ++ response :: more) (0, none) setting with
          | mk found remotes =>
              rw [hr] at hsome
              dsimp only at hsome
              have hfound : found? localuname setting policy (answers ++ response :: more) = found :=
                congrArg Prod.fst hr
              cases found with
              | some outcome =>
                  have hyes : Decides localuname setting policy (answers ++ response :: more) = true :=
                    hsome.symm
                  rw [if_pos hyes, hfound]
                  rfl
              | none =>
                  have hno : Decides localuname setting policy (answers ++ response :: more) = false :=
                    hsome.symm
                  rw [select_none hr, hno]
                  exact ih _ hno

/-! ## When the policy is followed -/

theorem admitted_subset {a : Response} (h : a ∈ (admitted localuname setting answers).head?) :
    a ∈ admitted localuname setting answers :=
  List.mem_of_head? h

/-- Nothing that is admitted has come. -/
theorem followsPolicy_timeout (h : admitted localuname setting answers = []) :
    FollowsPolicy localuname setting policy answers .timeout where
  heard hne := absurd h hne
  admits := nofun
  first _ a ha := by rw [h] at ha; cases ha
  locally _ hne := absurd h hne
  tooMany _ := by
    rw [h]
    exact iff_of_false nofun fun hno => hno nofun

/-- The first response that is admitted is taken. -/
theorem followsPolicy_head_iff {answer : Response} {srv : Server}
    (h : (admitted localuname setting answers).head? = some answer) :
    FollowsPolicy localuname setting policy answers (.found answer srv) ↔
      (policy = .locally → (∃ a ∈ admitted localuname setting answers, IsLocal localuname a) →
        IsLocal localuname answer) ∧
      (policy = .error → OneHost (admitted localuname setting answers)) := by
  have hmem := admitted_subset h
  constructor
  · rintro ⟨-, -, -, hlocal, hmany⟩
    refine ⟨fun hp ⟨a, ha, hl⟩ => ?_, fun hp => ?_⟩
    · obtain ⟨b, srv', hb, hbl⟩ := hlocal hp (List.ne_nil_of_mem hmem)
      cases hb
      exact hbl.resolve_right fun hno => hno.2 a ha hl
    · exact not_not.mp (mt (hmany hp).mpr nofun)
  · rintro ⟨hlocal, hone⟩
    refine ⟨fun _ => nofun, ?_, fun _ a ha => ?_, fun hp _ => ⟨answer, srv, rfl, ?_⟩, fun hp => ?_⟩
    · rintro a srv' hfound
      cases hfound
      exact hmem
    · rw [h] at ha
      cases ha
      exact ⟨srv, rfl⟩
    · by_cases hany : ∃ a ∈ admitted localuname setting answers, IsLocal localuname a
      · exact .inl (hlocal hp hany)
      · push Not at hany
        exact .inr ⟨h, hany⟩
    · exact iff_of_false nofun (not_not.mpr (hone hp))

theorem followsPolicy_tooMany_iff :
    FollowsPolicy localuname setting .error answers .tooMany ↔
      ¬ OneHost (admitted localuname setting answers) :=
  ⟨fun hf => (hf.tooMany rfl).mp rfl, fun hmany =>
    ⟨fun _ => nofun, nofun, nofun, nofun, fun _ => iff_of_true rfl hmany⟩⟩

/-- What is found by taking the first that is admitted, where there is one. -/
theorem followsPolicy_map_head_iff (srv : Response → Server) :
    FollowsPolicy localuname setting policy answers
        (((admitted localuname setting answers).head?.map fun a =>
          Outcome.found a (srv a)).getD .timeout) ↔
      (policy = .locally → (∃ a ∈ admitted localuname setting answers, IsLocal localuname a) →
        ∀ a ∈ (admitted localuname setting answers).head?, IsLocal localuname a) ∧
      (policy = .error → OneHost (admitted localuname setting answers)) := by
  cases hhead : (admitted localuname setting answers).head? with
  | none =>
      have hnil := List.head?_eq_none_iff.mp hhead
      rw [hnil]
      exact iff_of_true (followsPolicy_timeout hnil) ⟨fun _ _ => nofun, fun _ => nofun⟩
  | some answer =>
      rw [Option.map_some, Option.getD_some, followsPolicy_head_iff hhead]
      simp only [Option.mem_some_iff, forall_eq']

/-- **The choice of a known host.** -/
theorem specific_iff (ipAddrs : List CStr) :
    FollowsPolicy localuname (.specific ipAddrs) policy answers
        ((found? localuname (.specific ipAddrs) policy answers).getD .timeout) ↔
      Choosable localuname answers (.specific ipAddrs) policy := by
  rw [found?, select, @selectSpecific_eq localuname, followsPolicy_map_head_iff]
  cases policy with
  | first => exact iff_of_true ⟨nofun, nofun⟩ trivial
  | locally => exact ⟨fun h => h.1 rfl, fun h => ⟨fun _ => h, nofun⟩⟩
  | error => exact ⟨fun h => h.2 rfl, fun h => ⟨nofun, fun _ => h⟩⟩

/-- **The choice of a local system anywhere.** -/
theorem anywhere_locally_iff :
    FollowsPolicy localuname .anywhere .locally answers
        ((found? localuname .anywhere .locally answers).getD .timeout) ↔
      Choosable localuname answers .anywhere .locally := by
  rw [found?, select, Choosable]
  match answers with
  | [] => exact iff_of_true (followsPolicy_timeout rfl) nofun
  | [answer] =>
      have hadm : admitted localuname .anywhere [answer] = [answer] := admitted_anywhere ..
      rw [selectAnywhere_locally_one]
      simp only [List.getLast?_singleton, Option.mem_some_iff, forall_eq', List.length_singleton,
        if_true]
      by_cases h : IsLocal localuname answer
      · rw [if_pos h, Option.getD_some, followsPolicy_head_iff (by rw [hadm]; rfl)]
        exact iff_of_true ⟨fun _ _ => h, nofun⟩ h
      · rw [if_neg h]
        refine iff_of_false (fun hf => hf.heard ?_ rfl) h
        rw [hadm]
        exact List.cons_ne_nil _ _
  | first :: next :: rest =>
      have hadm : admitted localuname .anywhere (first :: next :: rest) = first :: next :: rest :=
        admitted_anywhere ..
      have hne : first :: next :: rest ≠ [] := List.cons_ne_nil _ _
      have hlen : ¬ (first :: next :: rest).length = 1 := by simp
      have hlast := List.getLast?_eq_some_getLast hne
      have hsplit := List.dropLast_append_getLast hne
      rw [selectAnywhere_locally, hlast]
      simp only [Option.mem_some_iff, forall_eq', if_neg hlen, Option.getD_some]
      generalize hlast' : (first :: next :: rest).getLast hne = last at hsplit ⊢
      cases hfind : (first :: next :: rest).dropLast.find? fun a => IsLocal localuname a with
      | some a =>
          have hlocal : IsLocal localuname a := by simpa using List.find?_some hfind
          have hmem : a ∈ (first :: next :: rest).dropLast := List.mem_of_find?_eq_some hfind
          rw [Option.getD_some]
          refine iff_of_true ⟨fun _ => nofun, ?_, nofun, fun _ _ => ⟨a, _, rfl, .inl hlocal⟩, nofun⟩
            fun _ => ⟨a, hmem, hlocal⟩
          rintro b srv hfound
          cases hfound
          rw [hadm]
          exact List.mem_of_mem_dropLast hmem
      | none =>
          have hnone : ∀ a ∈ (first :: next :: rest).dropLast, ¬ IsLocal localuname a := by
            simpa using List.find?_eq_none.mp hfind
          have hfirst : ¬ IsLocal localuname first := hnone first (by simp)
          rw [Option.getD_none, followsPolicy_head_iff (by rw [hadm]; rfl), hadm]
          constructor
          · rintro ⟨hl, -⟩ hlastLocal
            refine absurd (hl rfl ⟨last, ?_, hlastLocal⟩) hfirst
            rw [← hlast']
            exact List.getLast_mem hne
          · refine fun h => ⟨fun _ ⟨a, ha, hal⟩ => ?_, nofun⟩
            rw [← hsplit, List.mem_append, List.mem_singleton] at ha
            rcases ha with ha | rfl
            · exact absurd hal (hnone a ha)
            · obtain ⟨b, hb, hbl⟩ := h hal
              exact absurd hbl (hnone b hb)

/-- **The choice of a system anywhere**, by the other policies. -/
theorem anywhere_followsPolicy (hpolicy : policy ≠ .locally) :
    FollowsPolicy localuname .anywhere policy answers
      ((found? localuname .anywhere policy answers).getD .timeout) := by
  rw [found?, select]
  cases answers with
  | nil => exact followsPolicy_timeout rfl
  | cons first rest =>
      have hadm : admitted localuname .anywhere (first :: rest) = first :: rest :=
        admitted_anywhere ..
      have htake (hone : policy = .error → OneHost (first :: rest)) :
          FollowsPolicy localuname .anywhere policy (first :: rest)
            (.found first (server first 0)) := by
        rw [followsPolicy_head_iff (by rw [hadm]; rfl), hadm]
        exact ⟨fun hp => absurd hp hpolicy, hone⟩
      unfold selectAnywhere
      dsimp only
      split
      case isTrue h =>
        obtain ⟨rfl, -⟩ := h
        split
        case isTrue hsame => exact htake fun _ => oneHost_cons_iff.mpr hsame
        case isFalse hsame =>
          rw [Option.getD_some, followsPolicy_tooMany_iff, hadm, oneHost_cons_iff]
          exact hsame
      case isFalse h =>
        cases policy with
        | locally => exact absurd rfl hpolicy
        | first => exact htake nofun
        | error =>
            refine htake fun _ => ?_
            have hrest : rest = [] := by
              by_contra hne
              refine h ⟨rfl, ?_⟩
              have := List.length_pos_iff.mpr hne
              rw [List.length_cons]
              omega
            rw [hrest, oneHost_cons_iff]
            rfl

/-- **The choice of a remote system.** -/
theorem remote_iff :
    FollowsPolicy localuname .remote policy answers
        ((found? localuname .remote policy answers).getD .timeout) ↔
      Choosable localuname answers .remote policy := by
  have hnot : ∀ a ∈ admitted localuname .remote answers, ¬ IsLocal localuname a :=
    fun a ha => (mem_admitted.mp ha).2
  by_cases hpolicy : policy = .error
  swap
  · rw [found?_remote hpolicy, followsPolicy_map_head_iff]
    refine iff_of_true ⟨fun _ ⟨a, ha, hl⟩ => absurd hl (hnot a ha), fun hp => absurd hp hpolicy⟩ ?_
    cases policy with
    | first => trivial
    | locally => trivial
    | error => exact absurd rfl hpolicy
  subst hpolicy
  rw [found?_remote_error, Choosable]
  match hadm : admitted localuname .remote answers with
  | [] =>
      refine iff_of_true (followsPolicy_timeout hadm) fun _ hmany => ?_
      simp at hmany
  | [answer] =>
      refine iff_of_true ?_ fun _ hmany => ?_
      · rw [Option.getD_some, followsPolicy_head_iff (by rw [hadm]; rfl), hadm, oneHost_cons_iff]
        exact ⟨nofun, fun _ => rfl⟩
      · simp at hmany
  | a :: b :: more =>
      have hne : admitted localuname .remote answers ≠ [] := by
        rw [hadm]
        exact List.cons_ne_nil _ _
      have hmany : (admitted localuname .remote answers).length > 1 := by
        rw [hadm]
        simp
      dsimp only
      rw [← hadm]
      cases answers with
      | nil => cases hadm
      | cons first rest =>
          rw [List.head?_cons, Option.map_some, List.tail_cons, Option.getD_some]
          have hall (hno : ∀ c ∈ first :: rest, ¬ IsLocal localuname c) :
              admitted localuname .remote (first :: rest) = first :: rest :=
            List.filter_eq_self.mpr fun c hc => decide_eq_true (hno c hc)
          split
          case isTrue hsame =>
            -- all are from the host of one that is admitted
            have hone : OneHost (first :: rest) := oneHost_cons_iff.mpr hsame
            have hno : ∀ c ∈ first :: rest, ¬ IsLocal localuname c := by
              intro c hc hl
              obtain ⟨d, hd⟩ := List.exists_mem_of_ne_nil _ hne
              have hdm := mem_admitted.mp hd
              exact hdm.2 ((hone d hdm.1 c hc).trans hl)
            refine iff_of_true ?_ fun ⟨c, hc, hl⟩ => absurd hl (hno c hc)
            rw [followsPolicy_head_iff (by rw [hall hno]; rfl), hall hno]
            exact ⟨nofun, fun _ => hone⟩
          case isFalse hsame =>
            rw [followsPolicy_tooMany_iff]
            constructor
            · exact fun h _ _ => h
            · intro h
              by_cases hl : ∃ c ∈ first :: rest, IsLocal localuname c
              · exact h hl hmany
              · push Not at hl
                rw [hall hl, oneHost_cons_iff]
                exact hsame

theorem choosable_iff :
    FollowsPolicy localuname setting policy answers
        ((found? localuname setting policy answers).getD .timeout) ↔
      Choosable localuname answers setting policy := by
  cases setting with
  | specific ipAddrs => exact specific_iff ipAddrs
  | remote => exact remote_iff
  | anywhere =>
      by_cases hpolicy : policy = .locally
      · rw [hpolicy]
        exact anywhere_locally_iff
      · refine iff_of_true (anywhere_followsPolicy hpolicy) ?_
        cases policy with
        | first => trivial
        | error => trivial
        | locally => exact absurd rfl hpolicy

/-- **`et_findserver2` and the policy**: for the responses that it has when it returns. -/
theorem findserver2_followsPolicy_iff (localuname : CStr) (setting : HostSetting)
    (policy : Policy) (tries : List (List Response)) :
    FollowsPolicy localuname setting policy (findserver2 localuname setting policy tries).2
        (findserver2 localuname setting policy tries).1 ↔
      Choosable localuname (heardUntil (Decides localuname setting policy) [] tries)
        setting policy := by
  have hnone : Decides localuname setting policy [] = false := by
    cases setting <;> cases policy <;> rfl
  rw [findserver2, tryAll_eq tries [] hnone]
  exact choosable_iff

/-- A response of a host with one letter for its name. -/
def responseOf (letter : Byte) : Response where
  port := 11111
  castType := 0
  castIP := []
  uname := [letter, 0]
  canon := []
  addrs := [0]
  ipaddrs := [CStr.empty]
  bcastaddrs := none

/-- **A local system that answers last** is not opened. -/
theorem not_findserver2_followsPolicy :
    ¬ ∀ (localuname : CStr) (setting : HostSetting) (policy : Policy)
        (tries : List (List Response)),
      FollowsPolicy localuname setting policy (findserver2 localuname setting policy tries).2
        (findserver2 localuname setting policy tries).1 := by
  intro h
  let localuname : CStr := CStr.ofBuffer [1, 0]
  have hf := h localuname .anywhere .locally [[responseOf 2, responseOf 1]]
  have hrun : findserver2 localuname .anywhere .locally [[responseOf 2, responseOf 1]] =
      (.found (responseOf 2) (server (responseOf 2) 0), [responseOf 2, responseOf 1]) := rfl
  rw [hrun] at hf
  obtain ⟨answer, srv, hfound, hlocal⟩ := hf.locally rfl (List.cons_ne_nil _ _)
  cases hfound
  rcases hlocal with hl | ⟨-, hno⟩
  · exact absurd hl (by decide)
  · exact hno (responseOf 1) (by rw [admitted_anywhere]; simp) rfl

/-! ## The response that is handed out -/

section Removal

variable {next : ℕ → Option ℕ} {ys zs : List ℕ} {a : ℕ}

/-- The loop of `removeResponseFromList`: the record before the one to remove; `none` when that
is not in the list. -/
def recordBefore (next : ℕ → Option ℕ) (removeAnswer : ℕ) :
    ℕ → Option ℕ → ℕ → Option (Option ℕ)
  | 0, _, _ => none
  | fuel + 1, prev, answer =>
      if answer = removeAnswer then some prev
      else (next answer).bind fun following =>
        recordBefore next removeAnswer fuel (some answer) following

/-- `removeResponseFromList`: the first element of the new list, and its links. -/
def removeResponseFromList (next : ℕ → Option ℕ) (fuel : ℕ) (firstAnswer : Option ℕ)
    (removeAnswer : ℕ) : Option ℕ × (ℕ → Option ℕ) :=
  match firstAnswer.bind (recordBefore next removeAnswer fuel none) with
  | none => (firstAnswer, next)
  | some none => (next removeAnswer, Function.update next removeAnswer none)
  | some (some prev) =>
      (firstAnswer,
        Function.update (Function.update next prev (next removeAnswer)) removeAnswer none)

theorem recordBefore_eq {fuel first : ℕ} (prev : Option ℕ) (hl : Linked next (ys ++ a :: zs))
    (hnot : a ∉ ys) (hfuel : ys.length < fuel) (hfirst : (ys ++ a :: zs).head? = some first) :
    recordBefore next a fuel prev first = some (ys.getLast?.or prev) := by
  induction ys generalizing fuel first prev with
  | nil =>
      obtain ⟨fuel, rfl⟩ := Nat.exists_eq_add_of_lt hfuel
      cases hfirst
      exact if_pos rfl
  | cons y ys ih =>
      cases fuel with
      | zero => cases hfuel
      | succ fuel =>
          cases hfirst
          have hne : y ≠ a := fun h => hnot (h ▸ List.mem_cons_self)
          obtain ⟨following, hhead⟩ : ∃ following, (ys ++ a :: zs).head? = some following := by
            cases ys with
            | nil => exact ⟨a, rfl⟩
            | cons z ys => exact ⟨z, rfl⟩
          obtain ⟨-, htail, hlink⟩ : Linked next [y] ∧ Linked next (ys ++ a :: zs) ∧
              ∀ b ∈ [y].getLast?, ∀ c ∈ (ys ++ a :: zs).head?, next b = some c :=
            linked_append.mp hl
          have hnext : next y = some following := hlink y rfl following hhead
          rw [recordBefore, if_neg hne, hnext, Option.bind_some,
            ih _ htail (fun h => hnot (List.mem_cons_of_mem _ h)) (by simpa using hfuel) hhead]
          cases ys with
          | nil => rfl
          | cons z ys => simp [List.getLast?_cons]

/-- **The response that is handed out is not in the list that is freed**, which has all the
others. -/
theorem removeResponseFromList_eq {fuel : ℕ} (hl : Linked next (ys ++ a :: zs))
    (hnd : (ys ++ a :: zs).Nodup) (hend : next a = zs.head?) (hfuel : ys.length < fuel) :
    (removeResponseFromList next fuel (ys ++ a :: zs).head? a).1 = (ys ++ zs).head? ∧
      Linked (removeResponseFromList next fuel (ys ++ a :: zs).head? a).2 (ys ++ zs) ∧
      (removeResponseFromList next fuel (ys ++ a :: zs).head? a).2 a = none := by
  have hys : a ∉ ys := fun h => (List.disjoint_of_nodup_append hnd) h List.mem_cons_self
  have hzs : a ∉ zs := (List.nodup_cons.mp (List.nodup_append.mp hnd).2.1).1
  obtain ⟨hlys, hlzs, hlink⟩ := linked_append.mp hl
  obtain ⟨first, hfirst⟩ : ∃ first, (ys ++ a :: zs).head? = some first := by
    cases ys with
    | nil => exact ⟨a, rfl⟩
    | cons y ys => exact ⟨y, rfl⟩
  have hbefore := recordBefore_eq none hl hys hfuel hfirst
  have htail : Linked next zs := by
    obtain ⟨-, htail, -⟩ : Linked next [a] ∧ Linked next zs ∧ _ := linked_append.mp hlzs
    exact htail
  have hkeep {next' : ℕ → Option ℕ} {xs : List ℕ} (h : Linked next' xs) (hx : a ∉ xs) :
      Linked (Function.update next' a none) xs :=
    h.update (fun hm => hx (List.mem_of_mem_dropLast hm)) none
  unfold removeResponseFromList
  rw [hfirst, Option.bind_some, hbefore]
  rcases List.eq_nil_or_concat' ys with rfl | ⟨ys, p, rfl⟩
  · exact ⟨hend, hkeep htail hzs, Function.update_self ..⟩
  · have hlast : (ys ++ [p]).getLast? = some p := List.getLast?_concat
    have hpa : p ≠ a := fun h => hys (h ▸ List.mem_append_right _ List.mem_cons_self)
    have hp : p ∉ ys := by
      have := List.Nodup.of_append_left hnd
      rw [List.nodup_append] at this
      exact fun h => this.2.2 p h p List.mem_cons_self rfl
    have hpz : p ∉ zs := fun h =>
      List.disjoint_of_nodup_append hnd (List.mem_append_right _ List.mem_cons_self)
        (List.mem_cons_of_mem _ h)
    rw [hlast]
    dsimp only [Option.or]
    refine ⟨?_, linked_append.mpr ⟨?_, ?_, ?_⟩, Function.update_self ..⟩
    · rw [← hfirst]
      cases ys with
      | nil => rfl
      | cons y ys => rfl
    · exact hkeep (hlys.update (by rwa [List.dropLast_concat]) _) hys
    · exact hkeep (htail.update (fun hm => hpz (List.mem_of_mem_dropLast hm)) _) hzs
    · intro b hb c hc
      rw [hlast] at hb
      cases hb
      rw [Function.update_of_ne hpa, Function.update_self, hend]
      exact hc

end Removal

end ServerChoice

end EventTransfer
