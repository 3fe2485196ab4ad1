import HeadlessErp.Base.Address
import HeadlessErp.Base.Decimal

/-!
# The guard of webhook URLs

`validateWebhookUrl` of `apps/api/src/lib/services/webhook.service.ts`, on what `new URL` makes of a
text: addresses as hosts are in dotted decimal or in the text of `ipv6Text`, in brackets. The ranges of
IPv4 addresses are checked on numbers, those of IPv6 addresses on the text, where an embedded IPv4
address is looked for in dotted decimal: no host has one, so these addresses pass (`guardCovers_iff`).
-/

namespace HeadlessErp.Webhook

/-! ## Address literals -/

/-- An address literal: `{ type: 'v4'; value }` or `{ type: 'v6'; text }`. -/
inductive IpLiteral where
  | v4 (value : ℕ)
  | v6 (text : List Char)
  deriving DecidableEq, Repr

/-- `SSRF_BLOCKLIST`. -/
def ssrfBlocklist : List String :=
  ["localhost", "127.0.0.1", "0.0.0.0", "::1", "::", "169.254.169.254", "metadata.google.internal"]

/-- The regular expression `^fe[89ab][0-9a-f]`, of small letters. -/
def isLinkLocalText (t : List Char) : Bool :=
  match t with
  | 'f' :: 'e' :: c :: d :: _ => (c == '8' || c == '9' || c == 'a' || c == 'b') && isHexLower d
  | _ => false

/-- `isAlwaysBlockedIp`. -/
def isAlwaysBlockedIp : IpLiteral → Bool
  | .v6 text =>
    let t := text.map Char.toLower
    t == "::1".toList || t == "::".toList || isLinkLocalText t
  | .v4 v =>
    v == 0 || (0x7f000000 ≤ v && v ≤ 0x7fffffff) || (0xa9fe0000 ≤ v && v ≤ 0xa9feffff)

/-- `isPrivateIp`. -/
def isPrivateIp : IpLiteral → Bool
  | .v6 text =>
    let t := text.map Char.toLower
    "fc".toList.isPrefixOf t || "fd".toList.isPrefixOf t
  | .v4 v =>
    (0x0a000000 ≤ v && v ≤ 0x0affffff) || (0xac100000 ≤ v && v ≤ 0xac1fffff) ||
      (0xc0a80000 ≤ v && v ≤ 0xc0a8ffff)

/-- The number that hexadecimal digits write. -/
def hexValue (ds : List Char) : ℕ :=
  ds.foldl (fun n c => 16 * n + if c.isDigit then c.toNat - 48 else c.toNat - 87) 0

/-- A part of an IPv4 literal: hexadecimal after `0x`, octal after `0`, else decimal. -/
def ipv4Part (p : List Char) : Option ℕ :=
  let lower := p.map Char.toLower
  if "0x".toList.isPrefixOf lower && !(lower.drop 2).isEmpty && (lower.drop 2).all isHexLower then
    some (hexValue (lower.drop 2))
  else if "0".toList.isPrefixOf p && !(p.drop 1).isEmpty && (p.drop 1).all fun c => '0' ≤ c && c ≤ '7' then
    some (Nat.ofDigitChars 8 (p.drop 1) 0)
  else if !p.isEmpty && p.all Char.isDigit then some (Decimal.value p)
  else none

/-- A part of some number of parts: dotted parts are bytes. -/
def ipv4Octet (count : ℕ) (p : List Char) : Option ℕ := do
  let v ← ipv4Part p
  if 1 < count && 255 < v then none else some v

/-- `parseIPv4`. -/
def parseIPv4 (s : List Char) : Option ℕ :=
  if s.isEmpty || 64 < s.length then none
  else
    let parts := s.splitOn '.'
    if 4 < parts.length then none
    else do
      let octets ← parts.mapM (ipv4Octet parts.length)
      match octets with
      | [v] => if 0xffffffff < v then none else some v
      | _ =>
        let o := octets ++ List.replicate (4 - octets.length) 0
        some (((o.getD 0 0 <<< 24) + (o.getD 1 0 <<< 16) + (o.getD 2 0 <<< 8) + o.getD 3 0) % 2 ^ 32)

/-- The regular expression `^::ffff:(\d{1,3}(?:\.\d{1,3}){3})$`, with its group. -/
def mappedTail (h : List Char) : Option (List Char) :=
  let groups := (h.drop 7).splitOn '.'
  if "::ffff:".toList.isPrefixOf h && groups.length == 4 &&
      groups.all (fun g => 1 ≤ g.length && g.length ≤ 3 && g.all Char.isDigit) then some (h.drop 7)
  else none

/-- `parseIpLiteral`. -/
def parseIpLiteral (host : List Char) : Option IpLiteral :=
  let h := host.map Char.toLower
  match (mappedTail h).bind parseIPv4 with
  | some v4 => some (.v4 v4)
  | none =>
    if h.contains ':' then some (.v6 h)
    else (parseIPv4 h).map .v4

/-! ## The guard -/

/-- What `new URL` makes of a text. -/
structure ParsedUrl where
  protocol : String
  hostname : String
  href : String

/-- The host that is checked: in small letters, without the dot of the root, without brackets. -/
def guardedHost (hostname : String) : List Char :=
  let host := hostname.toList.map Char.toLower
  let host := if host.getLast? = some '.' then host.dropLast else host
  if host.head? = some '[' && host.getLast? = some ']' then host.tail.dropLast else host

/-- `validateWebhookUrl`. -/
def validateWebhookUrl (parse : String → Option ParsedUrl) (raw : String) (isDev : Bool) :
    Except String String :=
  match parse raw with
  | none => .error "Invalid webhook URL format"
  | some url =>
    if url.protocol != "https:" && url.protocol != "http:" then
      .error "Webhook URL must use https:// protocol"
    else if !isDev && url.protocol != "https:" then
      .error "Webhook URLs must use HTTPS in production"
    else
      let host := guardedHost url.hostname
      if ssrfBlocklist.contains (String.ofList host) then
        .error ("Webhook URL host \"" ++ String.ofList host ++ "\" is not allowed")
      else
        match parseIpLiteral host with
        | none => .ok url.href
        | some ip =>
          if isAlwaysBlockedIp ip then
            .error ("Webhook URL host \"" ++ String.ofList host ++ "\" is not allowed")
          else if !isDev && isPrivateIp ip then
            .error ("Webhook URL must use a public hostname (private IP \"" ++ String.ofList host ++
              "\" blocked)")
          else .ok url.href

/-! ## Addresses -/

/-- The address that a host denotes. -/
inductive IpAddress where
  | v4 (a b c d : Fin 256)
  | v6 (p₀ p₁ p₂ p₃ p₄ p₅ p₆ p₇ : Fin 65536)
  deriving DecidableEq

/-- The host of a URL, of an address. -/
def IpAddress.host : IpAddress → List Char
  | v4 a b c d => ['.'].intercalate ([a, b, c, d].map fun o => Nat.toDigits 10 o.val)
  | v6 p₀ p₁ p₂ p₃ p₄ p₅ p₆ p₇ =>
    '[' :: ipv6Text ([p₀, p₁, p₂, p₃, p₄, p₅, p₆, p₇].map Fin.val) ++ [']']

/-- Loopback, unspecified and link-local IPv4 addresses. -/
def LocalV4 (a b c d : ℕ) : Prop :=
  a = 127 ∨ (a = 0 ∧ b = 0 ∧ c = 0 ∧ d = 0) ∨ a = 169 ∧ b = 254

/-- Private IPv4 addresses. -/
def PrivateV4 (a b : ℕ) : Prop :=
  a = 10 ∨ (a = 172 ∧ 16 ≤ b ∧ b ≤ 31) ∨ a = 192 ∧ b = 168

/-- The IPv4 addresses that are blocked, in development or in production. -/
def BlockedV4 (isDev : Bool) (a b c d : ℕ) : Prop := LocalV4 a b c d ∨ isDev = false ∧ PrivateV4 a b

/-- An IPv6 address embeds an IPv4 address: mapped, or compatible. -/
def EmbedsBlocked (isDev : Bool) : IpAddress → Prop
  | .v4 _ _ _ _ => False
  | .v6 p₀ p₁ p₂ p₃ p₄ p₅ p₆ p₇ =>
    (p₀ = 0 ∧ p₁ = 0 ∧ p₂ = 0 ∧ p₃ = 0 ∧ p₄ = 0 ∧ (p₅ = 0xffff ∨ p₅ = 0)) ∧
      BlockedV4 isDev (p₆.val / 256) (p₆.val % 256) (p₇.val / 256) (p₇.val % 256)

/-- The addresses that are blocked. -/
def Blocked (isDev : Bool) : IpAddress → Prop
  | .v4 a b c d => BlockedV4 isDev a b c d
  | .v6 p₀ p₁ p₂ p₃ p₄ p₅ p₆ p₇ =>
    IpAddress.v6 p₀ p₁ p₂ p₃ p₄ p₅ p₆ p₇ = .v6 0 0 0 0 0 0 0 1 ∨
      IpAddress.v6 p₀ p₁ p₂ p₃ p₄ p₅ p₆ p₇ = .v6 0 0 0 0 0 0 0 0 ∨
      (0xfe80 ≤ p₀.val ∧ p₀.val ≤ 0xfebf) ∨
      (isDev = false ∧ 0xfc00 ≤ p₀.val ∧ p₀.val ≤ 0xfdff) ∨
      EmbedsBlocked isDev (.v6 p₀ p₁ p₂ p₃ p₄ p₅ p₆ p₇)

/-! ## Hosts -/

section

variable {a b c d : Fin 256} {isDev : Bool}

/-- A byte in decimal is read as it is. -/
theorem ipv4Part_byte : ∀ a : Fin 256, ipv4Part (Nat.toDigits 10 a.val) = some a.val := by
  decide +kernel

theorem digits_byte : ∀ a : Fin 256, (Nat.toDigits 10 a.val).length ≤ 3 ∧
    (Nat.toDigits 10 a.val).all Char.isDigit = true := by
  decide +kernel

theorem intercalate_four (w x y z : List Char) :
    ['.'].intercalate [w, x, y, z] = w ++ '.' :: (x ++ '.' :: (y ++ '.' :: z)) := by
  simp [List.intercalate]

theorem host_v4 (a b c d : Fin 256) : (IpAddress.v4 a b c d).host =
    Nat.toDigits 10 a.val ++ '.' :: (Nat.toDigits 10 b.val ++ '.' ::
      (Nat.toDigits 10 c.val ++ '.' :: Nat.toDigits 10 d.val)) :=
  intercalate_four ..

theorem dot_notMem (a : Fin 256) : '.' ∉ Nat.toDigits 10 a.val := by
  intro h
  have hdigit := List.all_eq_true.1 (digits_byte a).2 _ h
  exact absurd hdigit (by decide)

theorem splitOn_host (a b c d : Fin 256) : (IpAddress.v4 a b c d).host.splitOn '.' =
    [a, b, c, d].map fun o => Nat.toDigits 10 o.val := by
  refine List.splitOn_intercalate '.' ?_ (by simp)
  intro part hpart
  obtain ⟨o, -, rfl⟩ := List.mem_map.1 hpart
  exact dot_notMem o

/-- Dotted decimal is read as the address. -/
theorem parseIPv4_host (a b c d : Fin 256) : parseIPv4 (IpAddress.v4 a b c d).host =
    some (a.val * 16777216 + b.val * 65536 + c.val * 256 + d.val) := by
  have hlength : (IpAddress.v4 a b c d).host.length ≤ 64 := by
    have ha := (digits_byte a).1
    have hb := (digits_byte b).1
    have hc := (digits_byte c).1
    have hd := (digits_byte d).1
    rw [host_v4]
    simp only [List.length_append, List.length_cons]
    omega
  have hne : (IpAddress.v4 a b c d).host ≠ [] := by
    rw [host_v4]
    simp
  have hoctet (o : Fin 256) : ipv4Octet 4 (Nat.toDigits 10 o.val) = some o.val := by
    have hbyte : ¬ 255 < o.val := by omega
    simp [ipv4Octet, ipv4Part_byte, hbyte]
  have hoctets : ([a, b, c, d].map fun o => Nat.toDigits 10 o.val).mapM (ipv4Octet 4) =
      some [a.val, b.val, c.val, d.val] := by
    simp [hoctet]
  rw [parseIPv4, splitOn_host, List.isEmpty_eq_false_iff.2 hne]
  simp only [Bool.false_or, decide_eq_true_eq, not_lt.2 hlength, if_false, List.length_map,
    List.length_cons, List.length_nil]
  rw [if_neg (by decide), hoctets, Option.bind_eq_bind, Option.bind_some]
  show some ((a.val <<< 24 + b.val <<< 16 + c.val <<< 8 + d.val) % 2 ^ 32) = _
  simp only [Nat.shiftLeft_eq]
  congr 1
  omega

end

/-! ## The host that is checked -/

section

variable {t : List Char} {a b c d : Fin 256} {p : ℕ} {ps : List ℕ}

/-- The characters of addresses. -/
def HostChar (c : Char) : Prop := isHexLower c = true ∨ c = ':' ∨ c = '.'

theorem toLower_hostChar {c : Char} (h : HostChar c) : c.toLower = c := by
  obtain h | rfl | rfl := h
  · simp only [isHexLower, Bool.or_eq_true, Bool.and_eq_true, decide_eq_true_eq, Char.le_def,
      UInt32.le_iff_toNat_le] at h
    have h9 : '9'.val.toNat = 57 := rfl
    have ha : 'a'.val.toNat = 97 := rfl
    unfold Char.toLower
    refine dif_neg ?_
    simp only [ge_iff_le, UInt32.le_iff_toNat_le]
    have hA : 'A'.val.toNat = 65 := rfl
    have hZ : 'Z'.val.toNat = 90 := rfl
    omega
  · rfl
  · rfl

theorem lower_eq (h : ∀ c ∈ t, HostChar c) : t.map Char.toLower = t := by
  calc t.map Char.toLower = t.map id := List.map_congr_left fun c hc => toLower_hostChar (h c hc)
    _ = t := List.map_id t

theorem guardedHost_plain (h : ∀ c ∈ t, HostChar c) (hlast : t.getLast? ≠ some '.') :
    guardedHost (String.ofList t) = t := by
  have hhead : t.head? ≠ some '[' := by
    intro hhead
    obtain hhex | heq | heq := h _ (List.mem_of_head? hhead)
    · exact absurd hhex (by decide)
    · exact absurd heq (by decide)
    · exact absurd heq (by decide)
  simp only [guardedHost, String.toList_ofList, lower_eq h, hlast, hhead, if_false,
    Bool.false_and, decide_false, Bool.false_eq_true]

theorem guardedHost_brackets (h : ∀ c ∈ t, HostChar c) :
    guardedHost (String.ofList ('[' :: t ++ [']'])) = t := by
  have hlower : ('[' :: t ++ [']']).map Char.toLower = '[' :: t ++ [']'] := by
    rw [List.map_append, List.map_cons, lower_eq h]
    rfl
  have hlast : ('[' :: t ++ [']']).getLast? = some ']' := List.getLast?_concat
  have hdot : some ']' ≠ some '.' := by decide
  simp only [guardedHost, String.toList_ofList, hlower, hlast, hdot, if_false]
  simp

theorem hostChar_v4 : ∀ x ∈ (IpAddress.v4 a b c d).host, HostChar x := by
  have hbyte (o : Fin 256) : ∀ x ∈ Nat.toDigits 10 o.val, HostChar x := by
    intro x hx
    have hdigit := List.all_eq_true.1 (digits_byte o).2 _ hx
    refine .inl ?_
    simp only [Char.isDigit, Bool.and_eq_true, decide_eq_true_eq] at hdigit
    simp only [isHexLower, Bool.or_eq_true, Bool.and_eq_true, decide_eq_true_eq]
    exact .inl hdigit
  intro x hx
  rw [host_v4] at hx
  simp only [List.mem_append, List.mem_cons] at hx
  obtain hx | rfl | hx | rfl | hx | rfl | hx := hx
  · exact hbyte a x hx
  · exact .inr (.inr rfl)
  · exact hbyte b x hx
  · exact .inr (.inr rfl)
  · exact hbyte c x hx
  · exact .inr (.inr rfl)
  · exact hbyte d x hx

theorem hostChar_v6 : ∀ x ∈ ipv6Text ps, HostChar x := by
  intro x hx
  obtain rfl | hhex := char_of_mem_ipv6Text hx
  · exact .inr (.inl rfl)
  · exact .inl hhex

theorem getLast?_v4 : (IpAddress.v4 a b c d).host.getLast? ≠ some '.' := by
  have hne : Nat.toDigits 10 d.val ≠ [] := Nat.toDigits_ne_nil
  have hlast : (IpAddress.v4 a b c d).host.getLast? = (Nat.toDigits 10 d.val).getLast? := by
    rw [host_v4]
    simp [List.getLast?_append, List.getLast?_cons, List.getLast?_eq_some_getLast hne]
  rw [hlast]
  exact fun h => dot_notMem d (List.mem_of_getLast? h)

theorem colon_notMem_v4 : ':' ∉ (IpAddress.v4 a b c d).host := by
  have hbyte (o : Fin 256) : ':' ∉ Nat.toDigits 10 o.val := by
    intro h
    have hdigit := List.all_eq_true.1 (digits_byte o).2 _ h
    exact absurd hdigit (by decide)
  rw [host_v4]
  simp [hbyte]

/-- The address of a host in dotted decimal. -/
theorem parseIpLiteral_v4 : parseIpLiteral (IpAddress.v4 a b c d).host =
    some (.v4 (a.val * 16777216 + b.val * 65536 + c.val * 256 + d.val)) := by
  have hmapped : mappedTail (IpAddress.v4 a b c d).host = none := by
    have hnot : "::ffff:".toList.isPrefixOf (IpAddress.v4 a b c d).host = false := by
      rw [← Bool.not_eq_true, List.isPrefixOf_iff_prefix]
      intro h
      exact colon_notMem_v4 (h.subset (by decide : ':' ∈ "::ffff:".toList))
    unfold mappedTail
    simp only [hnot, Bool.false_and, Bool.false_eq_true, if_false]
  have hcolon : (IpAddress.v4 a b c d).host.contains ':' = false := by
    rw [← Bool.not_eq_true, List.contains_iff_mem]
    exact colon_notMem_v4
  unfold parseIpLiteral
  simp only [lower_eq hostChar_v4, hmapped, Option.bind_none, hcolon, Bool.false_eq_true, if_false,
    parseIPv4_host, Option.map_some]

/-- The text of an IPv6 address is taken as it is. -/
theorem parseIpLiteral_v6 (hps : ps ≠ []) :
    parseIpLiteral (ipv6Text (p :: ps)) = some (.v6 (ipv6Text (p :: ps))) := by
  have hdot : '.' ∉ (ipv6Text (p :: ps)).drop 7 := by
    intro h
    obtain heq | hhex := char_of_mem_ipv6Text (List.mem_of_mem_drop h)
    · exact absurd heq (by decide)
    · exact absurd hhex (by decide)
  have hmapped : mappedTail (ipv6Text (p :: ps)) = none := by
    unfold mappedTail
    simp [List.splitOn_eq_singleton hdot]
  have hcolon : (ipv6Text (p :: ps)).contains ':' = true :=
    List.contains_iff_mem.2 (colon_mem_ipv6Text hps)
  unfold parseIpLiteral
  simp only [lower_eq hostChar_v6, hmapped, Option.bind_none, hcolon, if_true]

end

/-! ## Ranges -/

section

variable {isDev : Bool} {a b c d : Fin 256} {p : ℕ} {ps : List ℕ}

/-- The ranges of the IPv4 addresses that are blocked. -/
theorem blocked_v4 (h : BlockedV4 isDev a.val b.val c.val d.val) :
    isAlwaysBlockedIp (.v4 (a.val * 16777216 + b.val * 65536 + c.val * 256 + d.val)) = true ∨
      isDev = false ∧
        isPrivateIp (.v4 (a.val * 16777216 + b.val * 65536 + c.val * 256 + d.val)) = true := by
  simp only [isAlwaysBlockedIp, isPrivateIp, Bool.or_eq_true, Bool.and_eq_true, beq_iff_eq,
    decide_eq_true_eq]
  obtain hlocal | ⟨hdev, hprivate⟩ := h
  · left
    unfold LocalV4 at hlocal
    omega
  · refine .inr ⟨hdev, ?_⟩
    unfold PrivateV4 at hprivate
    omega

/-- The texts of link-local IPv6 addresses. -/
theorem linkLocal_v6 (hp : 0xfe80 ≤ p) (hp' : p ≤ 0xfebf) (hps : ps ≠ []) :
    isAlwaysBlockedIp (.v6 (ipv6Text (p :: ps))) = true := by
  obtain ⟨rest, heq⟩ := ipv6Text_cons (show p ≠ 0 by omega) hps
  have hlink : isLinkLocalText (ipv6Text (p :: ps)) = true := by
    rw [heq, toDigits_four (by omega) (by omega), show p / 4096 = 15 by omega,
      show p / 256 % 16 = 14 by omega]
    have hthird : p / 16 % 16 = 8 ∨ p / 16 % 16 = 9 ∨ p / 16 % 16 = 10 ∨ p / 16 % 16 = 11 := by omega
    have hfourth := isHexLower_digitChar (show p % 16 < 16 by omega)
    show ((_ == '8' || _ == '9' || _ == 'a' || _ == 'b') && isHexLower (p % 16).digitChar) = true
    rw [hfourth, Bool.and_true]
    obtain h | h | h | h := hthird <;> rw [h] <;> rfl
  simp only [isAlwaysBlockedIp, lower_eq hostChar_v6, hlink, Bool.or_true]

/-- The texts of unique-local IPv6 addresses. -/
theorem uniqueLocal_v6 (hp : 0xfc00 ≤ p) (hp' : p ≤ 0xfdff) (hps : ps ≠ []) :
    isPrivateIp (.v6 (ipv6Text (p :: ps))) = true := by
  obtain ⟨rest, heq⟩ := ipv6Text_cons (show p ≠ 0 by omega) hps
  simp only [isPrivateIp, lower_eq hostChar_v6]
  rw [heq, toDigits_four (by omega) (by omega), show p / 4096 = 15 by omega]
  have hsecond : p / 256 % 16 = 12 ∨ p / 256 % 16 = 13 := by omega
  obtain h | h := hsecond <;> rw [h] <;> rfl

/-- The text of an address that is mapped. -/
theorem ipv6Text_mapped (h l : ℕ) : ipv6Text [0, 0, 0, 0, 0, 65535, h, l] =
    "::ffff:".toList ++ Nat.toDigits 16 h ++ ':' :: Nat.toDigits 16 l := by
  have hcompress : compressAt [0, 0, 0, 0, 0, 65535, h, l] = some 0 := by
    rcases h with _ | h <;> rcases l with _ | l <;> simp [compressAt, longestRun, zeroRun, runAt]
  have hdigits : Nat.toDigits 16 65535 = ['f', 'f', 'f', 'f'] := rfl
  rw [ipv6Text, hcompress]
  simp [writePieces, hdigits]

/-- The text of an address that is compatible. -/
theorem ipv6Text_compatible {h : ℕ} (hh : h ≠ 0) (l : ℕ) : ipv6Text [0, 0, 0, 0, 0, 0, h, l] =
    "::".toList ++ Nat.toDigits 16 h ++ ':' :: Nat.toDigits 16 l := by
  rcases h with _ | h
  · exact absurd rfl hh
  · have hcompress : compressAt [0, 0, 0, 0, 0, 0, h + 1, l] = some 0 := by
      rcases l with _ | l <;> simp [compressAt, longestRun, zeroRun, runAt]
    rw [ipv6Text, hcompress]
    simp [writePieces]

/-- A text with a colon beside the two that it begins with is in no range and on no list. -/
theorem unblocked_text {rest : List Char} (hcolon : ':' ∈ rest)
    (hchars : ∀ c ∈ ':' :: ':' :: rest, HostChar c) :
    String.ofList (':' :: ':' :: rest) ∉ ssrfBlocklist ∧
      isAlwaysBlockedIp (.v6 (':' :: ':' :: rest)) = false ∧
        isPrivateIp (.v6 (':' :: ':' :: rest)) = false := by
  have hloopback : ':' :: ':' :: rest ≠ "::1".toList := by
    intro heq
    have hrest : rest = ['1'] := (List.cons.inj (List.cons.inj heq).2).2
    rw [hrest] at hcolon
    exact absurd hcolon (by decide)
  have hunspecified : ':' :: ':' :: rest ≠ "::".toList := by
    intro heq
    have hrest : rest = [] := (List.cons.inj (List.cons.inj heq).2).2
    rw [hrest] at hcolon
    cases hcolon
  refine ⟨?_, ?_, ?_⟩
  · intro hmem
    obtain ⟨text, htext, heq⟩ : ∃ text ∈ ssrfBlocklist, ':' :: ':' :: rest = text.toList :=
      ⟨_, hmem, String.toList_ofList.symm⟩
    simp only [ssrfBlocklist, List.mem_cons, List.not_mem_nil, or_false] at htext
    obtain rfl | rfl | rfl | rfl | rfl | rfl | rfl := htext
    · exact absurd (List.cons.inj heq).1 (by decide)
    · exact absurd (List.cons.inj heq).1 (by decide)
    · exact absurd (List.cons.inj heq).1 (by decide)
    · exact hloopback heq
    · exact hunspecified heq
    · exact absurd (List.cons.inj heq).1 (by decide)
    · exact absurd (List.cons.inj heq).1 (by decide)
  · simp only [isAlwaysBlockedIp, lower_eq hchars, beq_eq_false_iff_ne.2 hloopback,
      beq_eq_false_iff_ne.2 hunspecified, Bool.false_or]
    rfl
  · simp only [isPrivateIp, lower_eq hchars]
    rfl

end

/-! ## What the guard covers -/

section

variable {parse : String → Option ParsedUrl} {raw : String} {isDev : Bool} {url : ParsedUrl}
  {A : IpAddress}

/-- The schemes that webhooks may have. -/
def SchemeAllowed (isDev : Bool) (url : ParsedUrl) : Prop :=
  url.protocol = "https:" ∨ isDev = true ∧ url.protocol = "http:"

/-- The guard rejects a URL whose host is an address that is blocked. -/
def GuardCovers (parse : String → Option ParsedUrl) (raw : String) (isDev : Bool) : Prop :=
  ∀ url A, parse raw = some url → url.hostname = String.ofList A.host → Blocked isDev A →
    ∃ e, validateWebhookUrl parse raw isDev = .error e

/-- What a URL is rejected for. -/
theorem rejects_iff (hparse : parse raw = some url) :
    (∃ e, validateWebhookUrl parse raw isDev = .error e) ↔ ¬ SchemeAllowed isDev url ∨
      String.ofList (guardedHost url.hostname) ∈ ssrfBlocklist ∨
        ∃ ip, parseIpLiteral (guardedHost url.hostname) = some ip ∧
          (isAlwaysBlockedIp ip = true ∨ isDev = false ∧ isPrivateIp ip = true) := by
  unfold SchemeAllowed validateWebhookUrl
  rw [hparse]
  dsimp only
  split
  · next hscheme =>
    simp only [Bool.and_eq_true, bne_iff_ne] at hscheme
    refine iff_of_true ⟨_, rfl⟩ (.inl ?_)
    rintro (h | ⟨-, h⟩)
    · exact hscheme.1 h
    · exact hscheme.2 h
  · next hscheme =>
    split
    · next hdev =>
      simp only [Bool.and_eq_true, Bool.not_eq_true', bne_iff_ne] at hdev
      refine iff_of_true ⟨_, rfl⟩ (.inl ?_)
      rintro (h | ⟨h, -⟩)
      · exact hdev.2 h
      · rw [hdev.1] at h
        cases h
    · next hdev =>
      have hallowed : url.protocol = "https:" ∨ isDev = true ∧ url.protocol = "http:" := by
        simp only [Bool.and_eq_true, bne_iff_ne, Bool.not_eq_true', not_and, not_not] at hscheme hdev
        by_cases hs : url.protocol = "https:"
        · exact .inl hs
        · refine .inr ⟨?_, hscheme hs⟩
          rw [← Bool.not_eq_false]
          exact fun h => hs (hdev h)
      rw [or_iff_right (not_not_intro hallowed)]
      split
      · next hlist => exact iff_of_true ⟨_, rfl⟩ (.inl (List.contains_iff_mem.1 hlist))
      · next hlist =>
        rw [or_iff_right (mt List.contains_iff_mem.2 hlist)]
        cases hip : parseIpLiteral (guardedHost url.hostname) with
        | none => exact iff_of_false (by rintro ⟨e, he⟩; cases he) (by rintro ⟨ip, h, -⟩; cases h)
        | some ip =>
          dsimp only
          split
          · next halways => exact iff_of_true ⟨_, rfl⟩ ⟨ip, rfl, .inl halways⟩
          · next halways =>
            split
            · next hprivate =>
              simp only [Bool.and_eq_true, Bool.not_eq_true'] at hprivate
              exact iff_of_true ⟨_, rfl⟩ ⟨ip, rfl, .inr hprivate⟩
            · next hprivate =>
              simp only [Bool.and_eq_true, Bool.not_eq_true'] at hprivate
              refine iff_of_false (by rintro ⟨e, he⟩; cases he) ?_
              rintro ⟨ip', h, h'⟩
              cases h
              exact h'.elim halways hprivate

/-- A blocked address that embeds no other is rejected, and so is `::`. -/
theorem rejects_of_blocked (hparse : parse raw = some url) (hhost : url.hostname = String.ofList A.host)
    (hblocked : Blocked isDev A)
    (hembeds : EmbedsBlocked isDev A → A = .v6 0 0 0 0 0 0 0 0) :
    ∃ e, validateWebhookUrl parse raw isDev = .error e := by
  refine (rejects_iff hparse).2 (.inr ?_)
  rw [hhost]
  cases A with
  | v4 a b c d =>
    rw [guardedHost_plain hostChar_v4 getLast?_v4]
    exact .inr ⟨_, parseIpLiteral_v4, blocked_v4 hblocked⟩
  | v6 p₀ p₁ p₂ p₃ p₄ p₅ p₆ p₇ =>
    rw [IpAddress.host, guardedHost_brackets hostChar_v6]
    obtain heq | heq | hlocal | hunique | hembed := hblocked
    · cases heq
      exact .inl (by decide)
    · cases heq
      exact .inl (by decide)
    · exact .inr ⟨_, parseIpLiteral_v6 (by simp), .inl (linkLocal_v6 hlocal.1 hlocal.2 (by simp))⟩
    · exact .inr ⟨_, parseIpLiteral_v6 (by simp), .inr ⟨hunique.1,
        uniqueLocal_v6 hunique.2.1 hunique.2.2 (by simp)⟩⟩
    · have heq := hembeds hembed
      cases heq
      exact .inl (by decide)

/-- An IPv6 address that embeds a blocked one passes. -/
theorem passes_of_embeds (hparse : parse raw = some url) (hhost : url.hostname = String.ofList A.host)
    (hscheme : SchemeAllowed isDev url) (hembeds : EmbedsBlocked isDev A)
    (hne : A ≠ .v6 0 0 0 0 0 0 0 0) : ¬ ∃ e, validateWebhookUrl parse raw isDev = .error e := by
  rw [rejects_iff hparse, hhost]
  cases A with
  | v4 a b c d => exact hembeds.elim
  | v6 p₀ p₁ p₂ p₃ p₄ p₅ p₆ p₇ =>
    obtain ⟨⟨rfl, rfl, rfl, rfl, rfl, hfifth⟩, hv4⟩ := hembeds
    have htext : ∃ rest, ipv6Text ([0, 0, 0, 0, 0, p₅, p₆, p₇].map Fin.val) = ':' :: ':' :: rest ∧
        ':' ∈ rest := by
      obtain rfl | rfl := hfifth
      · exact ⟨_, ipv6Text_mapped p₆.val p₇.val, by simp⟩
      · have hsixth : p₆.val ≠ 0 := by
          intro hzero
          have hseventh : p₇.val = 0 := by
            unfold BlockedV4 LocalV4 PrivateV4 at hv4
            omega
          have hsix : p₆ = 0 := Fin.ext hzero
          have hseven : p₇ = 0 := Fin.ext hseventh
          exact hne (by rw [hsix, hseven])
        exact ⟨_, ipv6Text_compatible hsixth p₇.val, by simp⟩
    obtain ⟨rest, hrest, hcolon⟩ := htext
    have hchars : ∀ c ∈ ':' :: ':' :: rest, HostChar c := hrest ▸ hostChar_v6
    obtain ⟨hlist, halways, hprivate⟩ := unblocked_text hcolon hchars
    have hip : parseIpLiteral (':' :: ':' :: rest) = some (.v6 (':' :: ':' :: rest)) := by
      rw [← hrest]
      exact parseIpLiteral_v6 (by simp)
    rw [IpAddress.host, guardedHost_brackets hostChar_v6, hrest]
    rintro (h | h | ⟨ip, h, h'⟩)
    · exact h hscheme
    · exact hlist h
    · rw [hip] at h
      cases h
      rw [halways, hprivate] at h'
      obtain h' | ⟨-, h'⟩ := h' <;> cases h'

/-- The guard covers the addresses that are blocked, just where it is not asked for an IPv6 address,
`::` apart, that embeds an IPv4 address that is blocked. -/
theorem guardCovers_iff (parse : String → Option ParsedUrl) (raw : String) (isDev : Bool) :
    GuardCovers parse raw isDev ↔ ∀ url A, parse raw = some url →
      url.hostname = String.ofList A.host → SchemeAllowed isDev url → EmbedsBlocked isDev A →
        A = .v6 0 0 0 0 0 0 0 0 := by
  have hincludes {A : IpAddress} (h : EmbedsBlocked isDev A) : Blocked isDev A := by
    cases A with
    | v4 a b c d => exact h.elim
    | v6 p₀ p₁ p₂ p₃ p₄ p₅ p₆ p₇ => exact .inr (.inr (.inr (.inr h)))
  constructor
  · intro hcovers url A hparse hhost hscheme hembeds
    by_contra hne
    exact passes_of_embeds hparse hhost hscheme hembeds hne
      (hcovers url A hparse hhost (hincludes hembeds))
  · intro hcondition url A hparse hhost hblocked
    by_cases hscheme : SchemeAllowed isDev url
    · exact rejects_of_blocked hparse hhost hblocked (hcondition url A hparse hhost hscheme)
    · exact (rejects_iff hparse).2 (.inl hscheme)

/-- What `new URL` makes of a URL of the mapped loopback address. -/
def mappedLoopback (raw : String) : Option ParsedUrl :=
  if raw = "https://[::ffff:127.0.0.1]/" then
    some ⟨"https:", "[::ffff:7f00:1]", "https://[::ffff:7f00:1]/"⟩
  else none

/-- The mapped loopback address passes. -/
theorem mappedLoopback_not_covered :
    ¬ ∀ (parse : String → Option ParsedUrl) (raw : String) (isDev : Bool),
      GuardCovers parse raw isDev := by
  intro h
  have hcovers := h mappedLoopback "https://[::ffff:127.0.0.1]/" false
  have heq := (guardCovers_iff _ _ _).1 hcovers _ (.v6 0 0 0 0 0 0xffff 0x7f00 1) rfl (by decide)
    (.inl rfl) ⟨by decide, .inl (.inl rfl)⟩
  exact absurd heq (by decide)

end

end HeadlessErp.Webhook
