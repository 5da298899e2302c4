import LoadReplay.Proofs.Addresses
import LoadReplay.Proofs.Escaping
import LoadReplay.Proofs.Results

/-!
# Texts of authorities

The authority of a URL of the web is printed so that reading it again gives the authority, whatever
path follows (`scanAuthority_text`), and only authorities for which this holds are read
(`normal_of_scanAuthority`).

Its parts are found by their marks: the user name with the password ends at the last `@`, the host
at the first colon outside of brackets.  So it matters which characters the parts are free of.
-/

namespace LoadReplay.Url

variable {c : Char} {s rest : List Char} {scheme : String}

/-! ## Characters -/

/-- Whether a character is neither a control character nor a space, and ends no authority. -/
def isInner (c : Char) : Bool := 0x20 < c.toNat && !Kind.web.endsAuthority c

/-- An inner character ends no authority. -/
theorem endsAuthority_of_isInner (h : isInner c = true) : Kind.web.endsAuthority c = false := by
  simpa using (Bool.and_eq_true_iff.1 h).2

/-- Everything but marks is inner. -/
theorem isInner_of_ne (hlow : 0x20 < c.toNat) (hmarks : c ∉ ['/', '\x5c', '?', '#']) :
    isInner c = true := by
  simp only [List.mem_cons, List.not_mem_nil, or_false, not_or] at hmarks
  simp [isInner, hlow, Kind.endsAuthority, Kind.isSlash, hmarks]

/-! ## Hosts -/

namespace Host

/-- What holds of every host that is read. -/
def IsNormal [Idna] : Host → Prop
  | .name text => text.toList ≠ [] ∧ Idna.toAscii (utf8 text.toList) = some text.toList ∧
      text.toList.any isForbiddenInName = false ∧ endsInNumber text.toList = false
  | .ipv4 address => address < 2 ^ 32
  | .ipv6 pieces => pieces.length = 8 ∧ ∀ p ∈ pieces, p < 65536

end Host

/-- Without a percent sign nothing is replaced. -/
theorem unescape_of_notMem (h : '%' ∉ s) : unescape s = utf8 s := by
  fun_induction unescape s with
  | case1 | case2 => exact absurd List.mem_cons_self h
  | case3 c rest _ ih =>
    rw [ih fun hmem => h (List.mem_cons_of_mem _ hmem), utf8, utf8, List.flatMap_cons]
  | case4 => rfl

/-- What stands in brackets is read to eight pieces of sixteen bits, or refused. -/
theorem normal_of_readBracketed [Idna] {host : Host} (h : readBracketed s = .ok host) :
    host.IsNormal := by
  rw [readBracketed] at h
  split at h
  · rename_i pieces hpieces
    cases h
    obtain ⟨inner, -, hinner⟩ := Option.bind_eq_some_iff.1 hpieces
    exact eight_of_readIpv6? hinner
  · cases h

/-- Only normal hosts are read. -/
theorem normal_of_readWebHost [Idna] {host : Host} (h : readWebHost s = .ok host) :
    host.IsNormal := by
  unfold readWebHost at h
  split at h
  · exact normal_of_readBracketed h
  · split at h
    · cases h
    · rename_i name hname
      split at h
      · cases h
      · rename_i hforbidden
        split at h
        · cases h
        · rename_i hempty
          split at h
          · split at h
            · rename_i address haddress
              cases h
              exact lt_of_readIpv4? haddress
            · cases h
          · rename_i hnumber
            cases h
            rw [Host.IsNormal, String.toList_ofList]
            exact ⟨fun hnil => hempty (List.isEmpty_iff.2 hnil), Idna.toAscii_self hname,
              Bool.eq_false_iff.2 hforbidden, Bool.eq_false_iff.2 hnumber⟩

/-- A text of characters that a name may hold is read as it stands, if it is an ASCII form. -/
theorem readWebHost_of_plain [Idna] (hne : s ≠ []) (hself : Idna.toAscii (utf8 s) = some s)
    (hname : s.any isForbiddenInName = false) :
    readWebHost s =
      if endsInNumber s then (readIpv4? s).elim (.error .invalidIpv4) (.ok ∘ .ipv4)
      else .ok (.name (String.ofList s)) := by
  have hallowed := List.any_eq_false.1 hname
  have hpercent : '%' ∉ s := fun hmem => hallowed _ hmem (by decide)
  unfold readWebHost
  split
  · exact absurd (by decide) (hallowed '[' List.mem_cons_self)
  · rw [unescape_of_notMem hpercent, hself]
    dsimp only
    rw [hname, if_neg Bool.false_ne_true,
      if_neg fun hempty => hne (List.isEmpty_iff.1 hempty)]
    cases readIpv4? s <;> rfl

/-- An address has a text. -/
theorem ipv4Text_ne_nil (address : Nat) : (ipv4Text address).toList ≠ [] := by
  intro hnil
  have hlength := congrArg List.length (splitAll_ipv4Text address)
  rw [hnil] at hlength
  exact absurd hlength (by simp [Text.splitAll])

/-- An address of four numbers is read again. -/
theorem readWebHost_ipv4Text [Idna] {address : Nat} (h : address < 2 ^ 32) :
    readWebHost (ipv4Text address).toList = .ok (.ipv4 address) := by
  have hplain : (('.' :: Number.digitChars).all fun c => !isForbiddenInName c) = true := by decide
  have hallowed : (ipv4Text address).toList.any isForbiddenInName = false := by
    refine List.any_eq_false.2 fun c hc => ?_
    simpa using List.all_eq_true.1 hplain c (mem_ipv4Text hc)
  have hself : Idna.toAscii (utf8 (ipv4Text address).toList) = some (ipv4Text address).toList :=
    Idna.toAscii_numbers fun _ hc => digit_of_mem_ipv4Text hc
  have hnumber : endsInNumber (ipv4Text address).toList = true := by
    have hlast : (labels (ipv4Text address).toList).getLast? =
        some (Nat.toDigits 10 (address / Nat.pow 2 0 % 256)) := by rw [labels_ipv4Text]; rfl
    rw [endsInNumber, hlast]
    refine Bool.or_eq_true_iff.2 (.inl (Bool.and_eq_true_iff.2 ⟨?_, ?_⟩))
    · rw [Bool.not_eq_true', List.isEmpty_eq_false_iff]
      exact Nat.toDigits_ne_nil
    · exact List.all_eq_true.2 fun c => Number.isDigit_of_mem_toDigits
  rw [readWebHost_of_plain (ipv4Text_ne_nil address) hself hallowed, hnumber, readIpv4?_text h]
  rfl

/-- An address of eight pieces is written in brackets. -/
theorem toList_text_ipv6 (pieces : List Nat) :
    (Host.ipv6 pieces).text.toList = '[' :: ((ipv6Text pieces).toList ++ [']']) := by
  rw [Host.text, String.toList_append, String.toList_append]
  rfl

/-- What is printed for a host is read as that host. -/
theorem readWebHost_text [Idna] {host : Host} (h : host.IsNormal) :
    readWebHost host.text.toList = .ok host := by
  cases host with
  | name text =>
    obtain ⟨hne, hself, hname, hnumber⟩ := h
    show readWebHost text.toList = _
    rw [readWebHost_of_plain hne hself hname, hnumber, String.ofList_toList]
    rfl
  | ipv4 address => exact readWebHost_ipv4Text h
  | ipv6 pieces =>
    have hstrip : Text.stripEnd? "]".toList ((ipv6Text pieces).toList ++ "]".toList) =
        some (ipv6Text pieces).toList := Text.stripEnd?_eq_some.2 rfl
    rw [toList_text_ipv6]
    show readBracketed ((ipv6Text pieces).toList ++ "]".toList) = _
    rw [readBracketed, hstrip, Option.bind_some, readIpv6?_text h.1 h.2]

/-! ## Where a host ends -/

/-- Whether a character may stand in the host of an authority, and in no other role. -/
def isHostChar (c : Char) : Bool := isInner c && c != '@'

/-- What a name may hold neither ends a host nor begins brackets. -/
theorem isHostChar_of_name (h : isForbiddenInName c = false) :
    isHostChar c = true ∧ c ≠ ':' ∧ c ≠ '[' := by
  obtain ⟨h, hcontrols⟩ := Bool.or_eq_false_iff.1 h
  obtain ⟨hforbidden, -⟩ := Bool.or_eq_false_iff.1 h
  have hmarks := of_decide_eq_false hforbidden
  simp only [List.mem_cons, List.not_mem_nil, or_false, not_or] at hmarks
  have hlow := lt_of_controls hcontrols (by tauto)
  have hinner : isInner c = true := isInner_of_ne hlow (by simp; tauto)
  refine ⟨?_, by tauto, by tauto⟩
  rw [isHostChar, hinner, Bool.true_and, bne_iff_ne]
  tauto

/-- Whether a text goes on with what ends a host. -/
def EndsHost (rest : List Char) : Prop := hostSpan .web false rest = ([], rest)

theorem endsHost_colon (rest : List Char) : EndsHost (':' :: rest) := rfl

theorem endsHost_slash (rest : List Char) : EndsHost ('/' :: rest) := rfl

/-- A character that ends nothing belongs to the host, and brackets are kept track of. -/
theorem hostSpan_cons {bracketed : Bool} (hcolon : c ≠ ':' ∨ bracketed = true)
    (hend : Kind.web.endsAuthority c = false) :
    hostSpan .web bracketed (c :: rest) =
      let p := hostSpan .web (if c = '[' then true else if c = ']' then false else bracketed) rest
      (c :: p.1, p.2) := by
  rw [hostSpan, if_neg]
  rw [hend]
  rcases hcolon with h | h <;> simp [h]

/-- A host without brackets reaches to a colon or a slash. -/
theorem hostSpan_plain (hs : ∀ c ∈ s, isHostChar c = true ∧ c ≠ ':' ∧ c ≠ '[')
    (hrest : EndsHost rest) : hostSpan .web false (s ++ rest) = (s, rest) := by
  induction s with
  | nil => exact hrest
  | cons c s ih =>
    obtain ⟨⟨hc, hcolon, hopen⟩, hs⟩ := List.forall_mem_cons.1 hs
    have hend := endsAuthority_of_isInner (Bool.and_eq_true_iff.1 hc).1
    rw [List.cons_append, hostSpan_cons (.inl hcolon) hend, if_neg hopen, ite_self, ih hs]

/-- In brackets a colon ends nothing: the host reaches to the closing one. -/
theorem hostSpan_bracketed (hs : ∀ c ∈ s, isInner c = true ∧ c ≠ ']') (hrest : EndsHost rest) :
    hostSpan .web true (s ++ ']' :: rest) = (s ++ [']'], rest) := by
  induction s with
  | nil =>
    have hclose : hostSpan .web true (']' :: rest) =
        (']' :: (hostSpan .web false rest).1, (hostSpan .web false rest).2) := rfl
    rw [List.nil_append, hclose, hrest]
    rfl
  | cons c s ih =>
    obtain ⟨⟨hc, hclose⟩, hs⟩ := List.forall_mem_cons.1 hs
    rw [List.cons_append, hostSpan_cons (.inr rfl) (endsAuthority_of_isInner hc), if_neg hclose,
      ite_self, ih hs]
    rfl

/-- Digits are characters of hosts. -/
theorem isHostChar_of_digits {n : Nat} (h : c ∈ Nat.toDigits 10 n) : isHostChar c = true := by
  have hall : (Number.digitChars.all isHostChar) = true := by decide
  exact List.all_eq_true.1 hall c (Number.mem_toDigits (by decide) (by decide) h)

/-- The text of eight pieces holds no bracket. -/
theorem isHostChar_of_ipv6 {pieces : List Nat} (h : c ∈ (ipv6Text pieces).toList) :
    isHostChar c = true ∧ c ≠ ']' := by
  have hall : ((':' :: Number.digitChars).all fun c => isHostChar c && c != ']') = true := by
    decide
  obtain ⟨hc, hclose⟩ := Bool.and_eq_true_iff.1 (List.all_eq_true.1 hall c (mem_ipv6Text h))
  exact ⟨hc, bne_iff_ne.1 hclose⟩

/-- The text of four numbers holds neither a colon nor a bracket. -/
theorem isHostChar_of_ipv4 {address : Nat} (h : c ∈ (ipv4Text address).toList) :
    isHostChar c = true ∧ c ≠ ':' ∧ c ≠ '[' := by
  have hall : (('.' :: Number.digitChars).all fun c => !isForbiddenInName c) = true := by decide
  exact isHostChar_of_name (by simpa using List.all_eq_true.1 hall c (mem_ipv4Text h))

/-- The host is found where it was printed. -/
theorem hostSpan_text [Idna] {host : Host} (h : host.IsNormal) (hrest : EndsHost rest) :
    hostSpan .web false (host.text.toList ++ rest) = (host.text.toList, rest) := by
  cases host with
  | name text =>
    have hname := List.any_eq_false.1 h.2.2.1
    exact hostSpan_plain (fun c hc => isHostChar_of_name (Bool.eq_false_iff.2 (hname c hc))) hrest
  | ipv4 address => exact hostSpan_plain (fun c => isHostChar_of_ipv4) hrest
  | ipv6 pieces =>
    have hbody := hostSpan_bracketed (s := (ipv6Text pieces).toList) (fun c hc =>
      ⟨(Bool.and_eq_true_iff.1 (isHostChar_of_ipv6 hc).1).1, (isHostChar_of_ipv6 hc).2⟩) hrest
    rw [toList_text_ipv6, List.cons_append, List.append_assoc,
      hostSpan_cons (.inl (by decide)) (by decide), if_pos rfl]
    show (_ :: (hostSpan .web true (_ ++ ']' :: rest)).1, _) = _
    rw [List.singleton_append, hbody]

/-- Every normal host is written in characters of hosts. -/
theorem forall_isHostChar [Idna] {host : Host} (h : host.IsNormal) :
    ∀ c ∈ host.text.toList, isHostChar c = true := by
  intro c hc
  cases host with
  | name text =>
    exact (isHostChar_of_name (Bool.eq_false_iff.2 (List.any_eq_false.1 h.2.2.1 c hc))).1
  | ipv4 address => exact (isHostChar_of_ipv4 hc).1
  | ipv6 pieces =>
    rw [toList_text_ipv6, List.mem_cons, List.mem_append, List.mem_singleton] at hc
    rcases hc with rfl | hc | rfl
    · decide
    · exact (isHostChar_of_ipv6 hc).1
    · decide

/-- Every normal host has a text. -/
theorem toList_text_ne_nil [Idna] {host : Host} (h : host.IsNormal) : host.text.toList ≠ [] := by
  cases host with
  | name text => exact h.1
  | ipv4 address => exact ipv4Text_ne_nil address
  | ipv6 pieces =>
    rw [toList_text_ipv6]
    exact List.cons_ne_nil _ _

/-! ## User names and passwords -/

/-- What holds of every user name with its password that is read: both are in their written forms,
so that neither has a colon. -/
def IsUserinfo (u : String) : Prop :=
  u.toList ≠ [] ∧ ∃ name password, Keeps userinfoSet name ∧ Keeps userinfoSet password ∧
    u.toList = name ++ if password.isEmpty then [] else ':' :: password

/-- The written form of a user name and a password. -/
def userinfoOf (name password : List Char) : String :=
  escape userinfoSet name ++ if password.isEmpty then "" else ":" ++ escape userinfoSet password

/-- A password that is not empty stands behind a colon. -/
theorem toList_userinfoOf (name password : List Char) : (userinfoOf name password).toList =
    (escape userinfoSet name).toList ++
      if password.isEmpty then [] else ':' :: (escape userinfoSet password).toList := by
  rw [userinfoOf, String.toList_append]
  split
  · rfl
  · rw [String.toList_append]
    rfl

/-- The name ends at the first colon, and all behind it is the password. -/
theorem userinfoText_eq (s : List Char) : userinfoText s =
    let u := userinfoOf (s.takeWhile (· != ':')) ((s.dropWhile (· != ':')).drop 1)
    if u.isEmpty then none else some u := rfl

/-- What is written of a name and a password is in its written form. -/
theorem isUserinfo_of_userinfoText {u : String} (h : userinfoText s = some u) : IsUserinfo u := by
  have hset := keeps_escapeChars.2.2.2
  rw [userinfoText_eq] at h
  generalize s.takeWhile (· != ':') = name at h
  generalize (s.dropWhile (· != ':')).drop 1 = password at h
  dsimp only at h
  split at h
  · cases h
  · rename_i hne
    obtain rfl := Option.some.inj h
    refine ⟨fun hnil => hne ?_, (escape userinfoSet name).toList,
      (escape userinfoSet password).toList, keeps_escape hset _, keeps_escape hset _, ?_⟩
    · rw [String.toList_eq_nil_iff.1 hnil]
      rfl
    · have hempty : (escape userinfoSet password).toList.isEmpty = password.isEmpty := by
        rw [Bool.eq_iff_iff, List.isEmpty_iff, List.isEmpty_iff, escape_eq_nil]
      rw [toList_userinfoOf, hempty]

/-- What is not escaped in a name or a password is inner, and no colon. -/
theorem isInner_of_userinfoSet (h : userinfoSet c = false) :
    isInner c = true ∧ c ≠ ':' := by
  have hpath := pathSet_of_userinfoSet h
  have hlow := lt_of_fragmentSet (fragmentSet_of_pathSet hpath)
  have hmarks : c ∉ ['/', '\x5c', '?', '#', ':'] := by
    intro hmem
    have hall : (['/', '\x5c', '?', '#', ':'].all userinfoSet) = true := by decide
    rw [List.all_eq_true.1 hall c hmem] at h
    cases h
  exact ⟨isInner_of_ne hlow fun hmem => hmarks (List.mem_append_left [':'] hmem),
    fun hcolon => hmarks (by rw [hcolon]; decide)⟩

/-- A user name with a password is made of inner characters. -/
theorem IsUserinfo.inner {u : String} (h : IsUserinfo u) : ∀ c ∈ u.toList, isInner c = true := by
  obtain ⟨-, name, password, hname, hpassword, hu⟩ := h
  intro c hc
  rw [hu] at hc
  rcases List.mem_append.1 hc with hc | hc
  · exact (isInner_of_userinfoSet (hname c hc)).1
  · split at hc
    · cases hc
    · rcases List.mem_cons.1 hc with rfl | hc
      · decide
      · exact (isInner_of_userinfoSet (hpassword c hc)).1

/-- What is printed for a user name with its password is read as that. -/
theorem userinfoText_text {u : String} (h : IsUserinfo u) : userinfoText u.toList = some u := by
  obtain ⟨hne, name, password, hname, hpassword, hu⟩ := h
  have hcolon : ∀ c ∈ name, (c != ':') = true := fun c hc =>
    bne_iff_ne.2 (isInner_of_userinfoSet (hname c hc)).2
  have htake : u.toList.takeWhile (· != ':') = name := by
    rw [hu]
    split
    · rw [List.append_nil, List.takeWhile_eq_self_iff.2 hcolon]
    · rw [List.takeWhile_append_of_pos hcolon]
      exact List.append_nil name
  have hdrop : (u.toList.dropWhile (· != ':')).drop 1 = password := by
    rw [hu]
    split
    · rename_i hempty
      rw [List.append_nil, List.dropWhile_eq_nil_iff.2 hcolon, List.isEmpty_iff.1 hempty]
      rfl
    · rw [List.dropWhile_append_of_pos hcolon]
      rfl
  have htext : userinfoOf name password = u := by
    rw [← String.toList_inj, toList_userinfoOf, escape_of_kept hname, escape_of_kept hpassword, hu,
      String.toList_ofList, String.toList_ofList]
  rw [userinfoText_eq, htake, hdrop, htext]
  refine if_neg fun hempty => hne ?_
  rw [String.isEmpty_iff.1 hempty]
  rfl

/-- An authority ends where a path begins. -/
theorem span_authority (hs : ∀ c ∈ s, isInner c = true) (rest : List Char) :
    (s ++ '/' :: rest).takeWhile (fun c => !Kind.web.endsAuthority c) = s ∧
      (s ++ '/' :: rest).dropWhile (fun c => !Kind.web.endsAuthority c) = '/' :: rest := by
  have hinner : ∀ c ∈ s, (!Kind.web.endsAuthority c) = true := fun c hc => by
    rw [endsAuthority_of_isInner (hs c hc)]
    rfl
  rw [List.takeWhile_append_of_pos hinner, List.dropWhile_append_of_pos hinner]
  exact ⟨List.append_nil s, rfl⟩

/-- Without an `@`, there is no user name. -/
theorem splitUserinfo_host (hs : ∀ c ∈ s, isHostChar c = true) (rest : List Char) :
    splitUserinfo .web (s ++ '/' :: rest) = none := by
  have hat : ∀ c ∈ s.reverse, (c != '@') = true := fun c hc =>
    (Bool.and_eq_true_iff.1 (hs c (List.mem_reverse.1 hc))).2
  obtain ⟨htake, hdrop⟩ := span_authority (fun c hc => (Bool.and_eq_true_iff.1 (hs c hc)).1) rest
  rw [splitUserinfo, htake, List.takeWhile_eq_self_iff.2 hat, List.reverse_reverse]
  exact if_pos rfl

/-- The user name ends at the last `@`. -/
theorem splitUserinfo_at {u : List Char} (hu : ∀ c ∈ u, isInner c = true)
    (hs : ∀ c ∈ s, isHostChar c = true) (rest : List Char) :
    splitUserinfo .web (u ++ '@' :: (s ++ '/' :: rest)) = some (u, s ++ '/' :: rest) := by
  have hat : ∀ c ∈ s.reverse, (c != '@') = true := fun c hc =>
    (Bool.and_eq_true_iff.1 (hs c (List.mem_reverse.1 hc))).2
  have hall : ∀ c ∈ u ++ '@' :: s, isInner c = true := by
    intro c hc
    rw [List.mem_append, List.mem_cons] at hc
    rcases hc with hc | rfl | hc
    · exact hu c hc
    · decide
    · exact (Bool.and_eq_true_iff.1 (hs c hc)).1
  have hsplit : u ++ '@' :: (s ++ '/' :: rest) = u ++ '@' :: s ++ '/' :: rest := by
    rw [List.append_assoc, List.cons_append]
  obtain ⟨htake, hdrop⟩ := span_authority hall rest
  have hbehind : (u ++ '@' :: s).reverse.takeWhile (· != '@') = s.reverse := by
    rw [List.reverse_append, List.reverse_cons, List.append_assoc,
      List.takeWhile_append_of_pos hat]
    exact List.append_nil _
  have hlength : s.length ≠ (u ++ '@' :: s).length := by
    rw [List.length_append, List.length_cons]
    omega
  have hfront : (u ++ '@' :: s).length - s.length - 1 = u.length := by
    rw [List.length_append, List.length_cons]
    omega
  rw [hsplit, splitUserinfo, htake, hdrop, hbehind, List.reverse_reverse, if_neg hlength, hfront,
    List.take_left]

/-! ## Authorities -/

namespace Authority

/-- What holds of every authority that is read under a scheme. -/
structure IsNormal [Idna] (scheme : String) (a : Authority) : Prop where
  userinfo : ∀ u, a.userinfo = some u → IsUserinfo u
  host : ∃ host, a.host = some host ∧ host.IsNormal
  port : ∀ p, a.port = some p → p ≤ 65535 ∧ some p ≠ defaultPort scheme

/-- The text of a port, with the colon in front. -/
def portText (port : Option Nat) : List Char := port.elim [] fun p => ':' :: Nat.toDigits 10 p

/-- The text of a user name, with the mark behind it. -/
def userText (userinfo : Option String) : List Char := userinfo.elim [] fun u => u.toList ++ ['@']

/-- The text of an authority is put together from the texts of its parts. -/
theorem toList_text (a : Authority) : a.text.toList =
    userText a.userinfo ++ ((a.host.elim [] fun h => h.text.toList) ++ portText a.port) := by
  obtain ⟨userinfo, host, port⟩ := a
  rw [Authority.text, String.toList_append, String.toList_append, List.append_assoc]
  congr 1
  · cases userinfo with
    | none => rfl
    | some u => exact String.toList_append
  · congr 1
    · cases host <;> rfl
    · cases port with
      | none => rfl
      | some p =>
        have hdigits : (toString p).toList = Nat.toDigits 10 p := by
          rw [Nat.toString_eq_ofList_toDigits, String.toList_ofList]
        show (":" ++ toString p).toList = ':' :: Nat.toDigits 10 p
        rw [String.toList_append, hdigits]
        rfl

end Authority

open Authority

/-- The user name with the password is found in front of its mark, whatever host follows. -/
theorem scanUserinfo_text {userinfo : Option String} (h : ∀ u, userinfo = some u → IsUserinfo u)
    (hs : ∀ c ∈ s, isHostChar c = true) (rest : List Char) :
    scanUserinfo .web (userText userinfo ++ (s ++ '/' :: rest)) =
      .ok (userinfo, s ++ '/' :: rest) := by
  cases userinfo with
  | none =>
    show scanUserinfo .web (s ++ '/' :: rest) = _
    rw [scanUserinfo, splitUserinfo_host hs]
  | some u =>
    have hu := h u rfl
    obtain ⟨c, more, hc⟩ := List.exists_cons_of_ne_nil hu.1
    have hsplit := splitUserinfo_at hu.inner hs rest
    have htext := userinfoText_text hu
    show scanUserinfo .web ((u.toList ++ ['@']) ++ (s ++ '/' :: rest)) = _
    rw [List.append_assoc, List.singleton_append, scanUserinfo, hsplit]
    rw [hc] at htext ⊢
    show Except.ok (userinfoText (c :: more), _) = _
    rw [htext]

/-- A port is read again, unless it is the one that goes without saying. -/
theorem scanPort_text {p : Nat} (hle : p ≤ 65535) (hne : some p ≠ defaultPort scheme)
    (rest : List Char) :
    scanPort scheme (Nat.toDigits 10 p ++ '/' :: rest) = .ok (some p, '/' :: rest) := by
  have hdigits : ∀ c ∈ Nat.toDigits 10 p, Number.isDigit c = true :=
    fun c => Number.isDigit_of_mem_toDigits
  have htake : (Nat.toDigits 10 p ++ '/' :: rest).takeWhile Number.isDigit = Nat.toDigits 10 p := by
    rw [List.takeWhile_append_of_pos hdigits]
    exact List.append_nil _
  have hdrop : (Nat.toDigits 10 p ++ '/' :: rest).dropWhile Number.isDigit = '/' :: rest := by
    rw [List.dropWhile_append_of_pos hdigits]
    rfl
  rw [scanPort, htake, hdrop, Number.readDigits_digits (by decide) (by decide), Option.getD_some,
    if_neg (Nat.not_lt.2 hle)]
  have hslash : ('/' :: rest).head?.any (fun c => !(c ∈ ['/', '\x5c', '?', '#'])) = false := by
    rw [List.head?_cons, Option.any_some]
    decide
  rw [hslash, if_neg Bool.false_ne_true]
  refine if_neg ?_
  rintro (hempty | hport)
  · exact Nat.toDigits_ne_nil (List.isEmpty_iff.1 hempty)
  · exact hne hport

/-- What follows a host: perhaps a port, and the text behind it. -/
def scanBehind (scheme : String) (host : Option Host) :
    List Char → Except ParseError (Option Host × Option Nat × List Char)
  | ':' :: rest =>
    if host.isNone then .error .emptyHost
    else (scanPort scheme rest).map fun p => (host, p.1, p.2)
  | rest => .ok (host, none, rest)

/-- A host is read up to its end, and then what stands behind it. -/
theorem scanHostPort_eq [Idna] (hk : Kind.of scheme = .web) (s : List Char) :
    scanHostPort scheme s =
      if (hostSpan .web false s).1.isEmpty then .error .emptyHost
      else (readWebHost (hostSpan .web false s).1).bind fun host =>
        scanBehind scheme (if host = .name "" then none else some host)
          (hostSpan .web false s).2 := by
  rw [scanHostPort, hk]
  generalize hostSpan .web false s = span
  obtain ⟨text, rest⟩ := span
  dsimp only
  by_cases hempty : text.isEmpty = true
  · rw [if_pos ⟨rfl, hempty⟩, if_pos hempty]
    rfl
  · rw [if_neg fun h => hempty h.2, if_neg hempty, if_pos rfl]
    refine congrArg _ (funext fun host => ?_)
    generalize (if host = Host.name "" then none else some host) = host'
    split
    · rename_i rest
      show _ = if host'.isNone then .error .emptyHost
        else (scanPort scheme rest).map fun p => (host', p.1, p.2)
      split
      · rfl
      · cases scanPort scheme rest <;> rfl
    · rename_i hcolon
      rw [scanBehind]
      · rfl
      · exact hcolon

/-- A host with a port is read again. -/
theorem scanHostPort_text [Idna] (hk : Kind.of scheme = .web) {host : Host} (hhost : host.IsNormal)
    {port : Option Nat} (hport : ∀ p, port = some p → p ≤ 65535 ∧ some p ≠ defaultPort scheme)
    (rest : List Char) :
    scanHostPort scheme (host.text.toList ++ (portText port ++ '/' :: rest)) =
      .ok (some host, port, '/' :: rest) := by
  have hends : EndsHost (portText port ++ '/' :: rest) := by
    cases port with
    | none => exact endsHost_slash rest
    | some p => exact endsHost_colon _
  have hname : host ≠ .name "" := by
    rintro rfl
    exact hhost.1 rfl
  have hne : ¬host.text.toList.isEmpty = true := fun h =>
    toList_text_ne_nil hhost (List.isEmpty_iff.1 h)
  rw [scanHostPort_eq hk, hostSpan_text hhost hends, if_neg hne, readWebHost_text hhost]
  show scanBehind scheme (if host = .name "" then none else some host) _ = _
  rw [if_neg hname]
  cases port with
  | none => rfl
  | some p =>
    obtain ⟨hle, hdefault⟩ := hport p rfl
    show (scanPort scheme (Nat.toDigits 10 p ++ '/' :: rest)).map _ = _
    rw [scanPort_text hle hdefault]
    rfl

/-- The host with its port holds no `@` and nothing that ends it. -/
theorem isHostChar_of_hostPort [Idna] {host : Host} (hhost : host.IsNormal) {port : Option Nat}
    (hc : c ∈ host.text.toList ++ portText port) : isHostChar c = true := by
  rcases List.mem_append.1 hc with hc | hc
  · exact forall_isHostChar hhost c hc
  · cases port with
    | none => cases hc
    | some p =>
      rcases List.mem_cons.1 hc with rfl | hc
      · decide
      · exact isHostChar_of_digits hc

/-- What is printed for an authority is read as that authority, whatever path follows. -/
theorem scanAuthority_text [Idna] (hk : Kind.of scheme = .web) {a : Authority}
    (h : a.IsNormal scheme)
    (rest : List Char) :
    scanAuthority scheme (a.text.toList ++ '/' :: rest) = .ok (a, '/' :: rest) := by
  obtain ⟨userinfo, host, port⟩ := a
  obtain ⟨host, rfl, hhost⟩ := h.host
  have huser := scanUserinfo_text h.userinfo
    (fun c (hc : c ∈ host.text.toList ++ portText port) => isHostChar_of_hostPort hhost hc) rest
  rw [List.append_assoc] at huser
  rw [toList_text, scanAuthority, hk, List.append_assoc]
  show (scanUserinfo .web (userText userinfo ++ (host.text.toList ++ portText port ++ '/' :: rest))
    >>= _) = _
  rw [List.append_assoc, huser]
  show (scanHostPort scheme (host.text.toList ++ (portText port ++ '/' :: rest)) >>= _) = _
  rw [scanHostPort_text hk hhost h.port]
  rfl

/-- What is printed for an authority is not empty, and nothing in it ends it. -/
theorem Authority.IsNormal.inner_text [Idna] {a : Authority} (h : a.IsNormal scheme) :
    a.text.toList ≠ [] ∧ ∀ c ∈ a.text.toList, isInner c = true := by
  obtain ⟨userinfo, host, port⟩ := a
  obtain ⟨host, rfl, hhost⟩ := h.host
  rw [toList_text]
  refine ⟨fun hnil => toList_text_ne_nil hhost ?_, fun c hc => ?_⟩
  · exact (List.append_eq_nil_iff.1 (List.append_eq_nil_iff.1 hnil).2).1
  · rcases List.mem_append.1 hc with hc | hc
    · cases userinfo with
      | none => cases hc
      | some u =>
        rcases List.mem_append.1 hc with hc | hc
        · exact (h.userinfo u rfl).inner c hc
        · rw [List.mem_singleton.1 hc]
          decide
    · exact (Bool.and_eq_true_iff.1 (isHostChar_of_hostPort hhost hc)).1

/-- A user name with a password that was read is in its written form. -/
theorem isUserinfo_of_scanUserinfo {userinfo : Option String}
    (h : scanUserinfo .web s = .ok (userinfo, rest)) {u : String} (hu : userinfo = some u) :
    IsUserinfo u := by
  subst hu
  rw [scanUserinfo] at h
  split at h
  · cases h
  · split at h <;> cases h
  · rename_i text _ _ _
    exact isUserinfo_of_userinfoText (Prod.mk.inj (Except.ok.inj h)).1

/-- A port that was read is a number of sixteen bits, and not the one that goes without saying. -/
theorem port_of_scanPort {port : Option Nat} (h : scanPort scheme s = .ok (port, rest)) {p : Nat}
    (hp : port = some p) : p ≤ 65535 ∧ some p ≠ defaultPort scheme := by
  subst hp
  rw [scanPort] at h
  split at h
  · cases h
  · rename_i hle
    split at h
    · cases h
    · split at h
      · cases h
      · rename_i hkeep
        have hport := (Prod.mk.inj (Except.ok.inj h)).1
        rw [hport, not_or] at hkeep
        obtain rfl := Option.some.inj hport
        exact ⟨Nat.le_of_not_lt hle, hkeep.2⟩

/-- A host of the web that was read is there and normal, and so is its port. -/
theorem normal_of_scanHostPort [Idna] (hk : Kind.of scheme = .web) {host : Option Host}
    {port : Option Nat} (h : scanHostPort scheme s = .ok (host, port, rest)) :
    (∃ host', host = some host' ∧ host'.IsNormal) ∧
      ∀ p, port = some p → p ≤ 65535 ∧ some p ≠ defaultPort scheme := by
  rw [scanHostPort_eq hk] at h
  generalize hostSpan .web false s = span at h
  split at h
  · cases h
  · obtain ⟨host', hread, h⟩ := bind_eq_ok.1 h
    have hnormal := normal_of_readWebHost hread
    have hname : host' ≠ .name "" := by
      rintro rfl
      exact hnormal.1 rfl
    rw [if_neg hname] at h
    generalize span.2 = behind at h
    unfold scanBehind at h
    split at h
    · rw [if_neg (by simp)] at h
      obtain ⟨⟨port', rest'⟩, hport, hsame⟩ := map_eq_ok.1 h
      cases hsame
      exact ⟨⟨host', rfl, hnormal⟩, fun p hp => port_of_scanPort hport hp⟩
    · cases h
      exact ⟨⟨host', rfl, hnormal⟩, fun _ hp => by cases hp⟩

/-- Only normal authorities are read. -/
theorem normal_of_scanAuthority [Idna] (hk : Kind.of scheme = .web) {a : Authority}
    (h : scanAuthority scheme s = .ok (a, rest)) : a.IsNormal scheme := by
  rw [scanAuthority, hk] at h
  obtain ⟨⟨userinfo, s'⟩, huser, h⟩ := bind_eq_ok.1 h
  obtain ⟨⟨host, port, s''⟩, hhost, h⟩ := bind_eq_ok.1 h
  obtain ⟨hnormal, hport⟩ := normal_of_scanHostPort hk hhost
  dsimp only at h
  split at h
  · cases h
  · cases h
    exact ⟨fun u hu => isUserinfo_of_scanUserinfo huser hu, hnormal, hport⟩

end LoadReplay.Url
