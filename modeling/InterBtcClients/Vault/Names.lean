import InterBtcClients.Runtime.Assets
import Mathlib.Data.List.Basic

/-! The names of the bitcoin wallets and the keys of the database entries of the vaults of an
account, which are texts joined by dashes. -/

namespace InterBtcClients.Vault.Names

open InterBtcClients.Runtime Assets

/-! ### Texts that end in a separator -/

section Separated

variable {α : Type} {sep : α} {a b x y : List α}

/-- Two texts have a common continuation if one is a prefix of the other. -/
theorem continued_iff_prefix : (∃ x y, a ++ x = b ++ y) ↔ a <+: b ∨ b <+: a := by
  constructor
  · rintro ⟨x, y, h⟩
    apply List.prefix_or_prefix_of_prefix (List.prefix_append a x)
    rw [h]
    exact List.prefix_append b y
  · rintro (⟨x, rfl⟩ | ⟨y, rfl⟩)
    · exact ⟨x, [], by simp⟩
    · exact ⟨[], y, by simp⟩

/-- The first separator ends a text that has none. -/
theorem eq_of_separated_prefix (ha : sep ∉ a) (hb : sep ∉ b)
    (h : a ++ sep :: x <+: b ++ sep :: y) : a = b ∧ x <+: y := by
  induction a generalizing b with
  | nil =>
    cases b with
    | nil => exact ⟨rfl, (List.cons_prefix_cons.mp h).2⟩
    | cons c b =>
      have hc : sep = c := (List.cons_prefix_cons.mp h).1
      simp [hc] at hb
  | cons d a ih =>
    cases b with
    | nil =>
      have hd : d = sep := (List.cons_prefix_cons.mp h).1
      simp [hd] at ha
    | cons c b =>
      obtain ⟨rfl, htail⟩ := List.cons_prefix_cons.mp h
      simp only [List.mem_cons, not_or] at ha hb
      obtain ⟨rfl, hrest⟩ := ih ha.2 hb.2 htail
      exact ⟨rfl, hrest⟩

end Separated

/-! ### The names -/

inductive BitcoinError
  | failedToConstructWalletName
  deriving DecidableEq, Repr

variable (primitives : Primitives) (prettyPrint : AccountId → String)

section Names

variable (registries : Registries) (fuel : Nat)

def symbolOfCurrency (currency : CurrencyId) : ExceptT BitcoinError Option String :=
  ExceptT.adapt (fun _ => .failedToConstructWalletName) (registries.symbol primitives fuel currency)

def walletPrefix (walletName : Option String) : String := walletName.getD "vault"

def masterWalletName (walletName : Option String) : String := walletPrefix walletName ++ "-master"

/-- The name that the constructor of the connection manager gives to the wallet of a vault. -/
def vaultWalletName (walletName : Option String) (vaultId : VaultId) :
    ExceptT BitcoinError Option String := do
  let collateral ← symbolOfCurrency primitives registries fuel vaultId.currencies.collateral
  let wrapped ← symbolOfCurrency primitives registries fuel vaultId.currencies.wrapped
  return walletPrefix walletName ++ "-" ++ collateral ++ "-" ++ wrapped

def prefixedKey (vaultId : VaultId) (key : String) : ExceptT BitcoinError Option String := do
  let account := prettyPrint vaultId.accountId
  let collateral ← symbolOfCurrency primitives registries fuel vaultId.currencies.collateral
  let wrapped ← symbolOfCurrency primitives registries fuel vaultId.currencies.wrapped
  return account ++ "-" ++ collateral ++ "-" ++ wrapped ++ "-" ++ key

end Names

/-- The computation returns the text `s` when it looks up enough underlying currencies. -/
def Returns (text : Nat → ExceptT BitcoinError Option String) (s : String) : Prop :=
  ∃ fuel, (text fuel).run = some (.ok s)

/-- The two vaults have wallets of their own, which are not the master wallet either, and no
database entry in common. -/
structure Separate (registries : Registries) (walletName : Option String) (v w : VaultId) :
    Prop where
  wallets : ∃ a b, Returns (vaultWalletName primitives registries · walletName v) a ∧
    Returns (vaultWalletName primitives registries · walletName w) b ∧ a ≠ b ∧
    masterWalletName walletName ≠ a ∧ masterWalletName walletName ≠ b
  entries : ∀ k l, ∃ a b, Returns (prefixedKey primitives prettyPrint registries · v k) a ∧
    Returns (prefixedKey primitives prettyPrint registries · w l) b ∧ a ≠ b

/-- The symbols of a vault as they stand in its names, each with the dash after it. -/
def symbolsText (collateral wrapped : String) : List Char :=
  collateral.toList ++ '-' :: (wrapped.toList ++ ['-'])

section Texts

variable {primitives prettyPrint} {registries : Registries} {walletName : Option String}
  {v w : VaultId} {c d p q k l : String}

/-- A lookup with any fuel finds the symbol of a currency or runs out of fuel. -/
theorem symbolOfCurrency_cases {currency : CurrencyId} {s : String}
    (hs : registries.HasSymbol primitives currency s) (fuel : Nat) :
    symbolOfCurrency primitives registries fuel currency = ExceptT.mk none ∨
      symbolOfCurrency primitives registries fuel currency = ExceptT.mk (some (.ok s)) := by
  have h : symbolOfCurrency primitives registries fuel currency = ExceptT.mk
    ((registries.symbol primitives fuel currency).run.map (Except.mapError fun _ =>
      .failedToConstructWalletName)) := rfl
  rw [h]
  apply (hs.run_symbol fuel).imp <;> intro hrun <;> rw [hrun] <;> rfl

/-- With enough fuel both symbols of a vault are found. -/
theorem exists_symbolOfCurrency
    (hc : registries.HasSymbol primitives v.currencies.collateral c)
    (hd : registries.HasSymbol primitives v.currencies.wrapped d) : ∃ fuel,
      symbolOfCurrency primitives registries fuel v.currencies.collateral =
        ExceptT.mk (some (.ok c)) ∧
      symbolOfCurrency primitives registries fuel v.currencies.wrapped =
        ExceptT.mk (some (.ok d)) := by
  obtain ⟨m, hm⟩ := id hc
  obtain ⟨n, hn⟩ := id hd
  have hm := Registries.symbol_mono (Nat.le_max_left m n) hm
  have hn := Registries.symbol_mono (Nat.le_max_right m n) hn
  refine ⟨max m n, ?_, ?_⟩
  · show ExceptT.mk ((registries.symbol primitives (max m n) _).run.map _) = _
    rw [hm]
    rfl
  · show ExceptT.mk ((registries.symbol primitives (max m n) _).run.map _) = _
    rw [hn]
    rfl

/-- A text made of the two symbols of a vault is the one made of the symbols that it has. -/
theorem returns_iff {s : String} (text : String → String → String)
    (hc : registries.HasSymbol primitives v.currencies.collateral c)
    (hd : registries.HasSymbol primitives v.currencies.wrapped d) :
    Returns (fun fuel => do
      let collateral ← symbolOfCurrency primitives registries fuel v.currencies.collateral
      let wrapped ← symbolOfCurrency primitives registries fuel v.currencies.wrapped
      return text collateral wrapped) s ↔ s = text c d := by
  constructor
  · rintro ⟨fuel, h⟩
    dsimp only at h
    rcases symbolOfCurrency_cases hc fuel with hcollateral | hcollateral <;>
      rcases symbolOfCurrency_cases hd fuel with hwrapped | hwrapped <;>
      rw [hcollateral, hwrapped] at h <;> cases h
    rfl
  · rintro rfl
    obtain ⟨fuel, hcollateral, hwrapped⟩ := exists_symbolOfCurrency hc hd
    refine ⟨fuel, ?_⟩
    simp only [hcollateral, hwrapped]
    rfl

theorem vaultWalletName_returns_iff {s : String}
    (hc : registries.HasSymbol primitives v.currencies.collateral c)
    (hd : registries.HasSymbol primitives v.currencies.wrapped d) :
    Returns (vaultWalletName primitives registries · walletName v) s ↔
      s = walletPrefix walletName ++ "-" ++ c ++ "-" ++ d :=
  returns_iff (walletPrefix walletName ++ "-" ++ · ++ "-" ++ ·) hc hd

theorem prefixedKey_returns_iff {s : String}
    (hc : registries.HasSymbol primitives v.currencies.collateral c)
    (hd : registries.HasSymbol primitives v.currencies.wrapped d) :
    Returns (prefixedKey primitives prettyPrint registries · v k) s ↔
      s = prettyPrint v.accountId ++ "-" ++ c ++ "-" ++ d ++ "-" ++ k :=
  returns_iff (prettyPrint v.accountId ++ "-" ++ · ++ "-" ++ · ++ "-" ++ k) hc hd

/-! ### When the names differ -/

/-- The name of the wallet of a vault has a dash after the prefix that the one of the master wallet
does not have. -/
theorem masterWalletName_ne :
    masterWalletName walletName ≠ walletPrefix walletName ++ "-" ++ c ++ "-" ++ d := by
  intro h
  have h := congrArg String.toList h
  simp only [masterWalletName, String.toList_append, List.append_assoc,
    List.append_cancel_left_eq] at h
  have hdash : '-' ∈ ['m', 'a', 's', 't', 'e', 'r'] := by
    have htail : "-master".toList = "-".toList ++ ['m', 'a', 's', 't', 'e', 'r'] := rfl
    rw [htail, List.append_cancel_left_eq] at h
    rw [h]
    simp
  revert hdash
  decide

theorem wallet_names_eq_iff :
    walletPrefix walletName ++ "-" ++ c ++ "-" ++ d =
      walletPrefix walletName ++ "-" ++ p ++ "-" ++ q ↔ symbolsText c d = symbolsText p q := by
  have htext : ∀ c d : String, symbolsText c d = c.toList ++ '-' :: d.toList ++ ['-'] := by
    intro c d
    simp [symbolsText]
  rw [← String.toList_inj, htext, htext, List.append_cancel_right_eq]
  simp

/-- Some keys of two vaults with the account text `a` are equal if the symbols text of one is a
prefix of that of the other. -/
theorem exists_keys_eq_iff (a : String) :
    (∃ k l : String,
      a ++ "-" ++ c ++ "-" ++ d ++ "-" ++ k = a ++ "-" ++ p ++ "-" ++ q ++ "-" ++ l) ↔
      symbolsText c d <+: symbolsText p q ∨ symbolsText p q <+: symbolsText c d := by
  rw [← continued_iff_prefix]
  have hkey : ∀ c d k : String, (a ++ "-" ++ c ++ "-" ++ d ++ "-" ++ k).toList =
      a.toList ++ '-' :: (symbolsText c d ++ k.toList) := by
    intro c d k
    simp [symbolsText]
  constructor
  · rintro ⟨k, l, h⟩
    refine ⟨k.toList, l.toList, ?_⟩
    simpa [← String.toList_inj, hkey] using h
  · rintro ⟨x, y, h⟩
    refine ⟨String.ofList x, String.ofList y, ?_⟩
    rw [← String.toList_inj, hkey, hkey]
    simpa using h

/-- Symbols without dashes are read back from the symbols text. -/
theorem symbolsText_prefix_iff (hc : '-' ∉ c.toList) (hd : '-' ∉ d.toList) (hp : '-' ∉ p.toList)
    (hq : '-' ∉ q.toList) : symbolsText c d <+: symbolsText p q ↔ c = p ∧ d = q := by
  constructor
  · intro h
    obtain ⟨hcp, h⟩ := eq_of_separated_prefix hc hp h
    obtain ⟨hdq, -⟩ := eq_of_separated_prefix hd hq h
    exact ⟨String.toList_inj.mp hcp, String.toList_inj.mp hdq⟩
  · rintro ⟨rfl, rfl⟩
    exact List.prefix_rfl

variable (hc : registries.HasSymbol primitives v.currencies.collateral c)
  (hd : registries.HasSymbol primitives v.currencies.wrapped d)
  (hp : registries.HasSymbol primitives w.currencies.collateral p)
  (hq : registries.HasSymbol primitives w.currencies.wrapped q)

include hc hd hp hq

theorem separate_of_not_prefix (haccount : v.accountId = w.accountId)
    (h : ¬ symbolsText c d <+: symbolsText p q) (h' : ¬ symbolsText p q <+: symbolsText c d) :
    Separate primitives prettyPrint registries walletName v w where
  wallets := by
    refine ⟨_, _, (vaultWalletName_returns_iff hc hd).mpr rfl,
      (vaultWalletName_returns_iff hp hq).mpr rfl, ?_, masterWalletName_ne, masterWalletName_ne⟩
    intro heq
    rw [wallet_names_eq_iff] at heq
    exact h (heq ▸ List.prefix_rfl)
  entries := by
    intro k l
    refine ⟨_, _, (prefixedKey_returns_iff hc hd).mpr rfl, (prefixedKey_returns_iff hp hq).mpr rfl,
      ?_⟩
    intro heq
    rw [← haccount] at heq
    rcases (exists_keys_eq_iff _).mp ⟨k, l, heq⟩ with hprefix | hprefix
    · exact h hprefix
    · exact h' hprefix

/-- Vaults whose symbols have no dash share no name unless they have the same two symbols. -/
theorem separate_of_no_dash (haccount : v.accountId = w.accountId) (hdashc : '-' ∉ c.toList)
    (hdashd : '-' ∉ d.toList) (hdashp : '-' ∉ p.toList) (hdashq : '-' ∉ q.toList)
    (hne : ¬ (c = p ∧ d = q)) : Separate primitives prettyPrint registries walletName v w := by
  apply separate_of_not_prefix hc hd hp hq haccount
  · rw [symbolsText_prefix_iff hdashc hdashd hdashp hdashq]
    exact hne
  · rw [symbolsText_prefix_iff hdashp hdashq hdashc hdashd]
    rintro ⟨rfl, rfl⟩
    exact hne ⟨rfl, rfl⟩

end Texts

section Main

variable {primitives prettyPrint} (insertions : List Registries.Insertion)
  {walletName : Option String} {v w : VaultId} {c d p q : String}

/-- Two vaults of an account have no names in common unless the symbols text of one starts with
that of the other. -/
theorem vaults_separate_iff
    (hc : (Registries.after primitives insertions).HasSymbol primitives v.currencies.collateral c)
    (hd : (Registries.after primitives insertions).HasSymbol primitives v.currencies.wrapped d)
    (hp : (Registries.after primitives insertions).HasSymbol primitives w.currencies.collateral p)
    (hq : (Registries.after primitives insertions).HasSymbol primitives w.currencies.wrapped q)
    (haccount : v.accountId = w.accountId) :
    Separate primitives prettyPrint (Registries.after primitives insertions) walletName v w ↔
      ¬ symbolsText c d <+: symbolsText p q ∧ ¬ symbolsText p q <+: symbolsText c d := by
  constructor
  · intro hseparate
    rw [← not_or]
    intro hprefix
    obtain ⟨k, l, heq⟩ := (exists_keys_eq_iff (prettyPrint v.accountId)).mpr hprefix
    obtain ⟨a, b, ha, hb, hne⟩ := hseparate.entries k l
    rw [prefixedKey_returns_iff hc hd] at ha
    rw [prefixedKey_returns_iff hp hq, ← haccount] at hb
    exact hne (ha.trans (heq.trans hb.symm))
  · rintro ⟨h, h'⟩
    exact separate_of_not_prefix hc hd hp hq haccount h h'

end Main

/-! ### Two vaults with the names of one -/

/-- The text of the account 0. -/
def concretePrettyPrint (_ : AccountId) : String :=
  "qHRY9d6tbWZYEUT6bFbDctK5FyJToNf9B7VDz8AsJ5fSHh4sK"

/-- A vault of the account 0 with a foreign asset as collateral. -/
def vaultOfAsset (id : Nat) : VaultId := ⟨0, ⟨.foreignAsset id, .token .KBTC⟩⟩

/-- The registries with the foreign assets 1 and 2. -/
def registriesOfAssets (symbol₁ symbol₂ : List UInt8) : Registries :=
  Registries.after asciiPrimitives [.assets [(1, ⟨symbol₁⟩), (2, ⟨symbol₂⟩)]]

/-- Assets with the symbols `AB` and `AC`. -/
theorem vaults_separate_iff_assets : Separate asciiPrimitives concretePrettyPrint
    (registriesOfAssets [65, 66] [65, 67]) none (vaultOfAsset 1) (vaultOfAsset 2) :=
  (vaults_separate_iff [.assets [(1, ⟨[65, 66]⟩), (2, ⟨[65, 67]⟩)]] (v := vaultOfAsset 1)
    (w := vaultOfAsset 2) (c := "AB") (d := "KBTC") (p := "AC") (q := "KBTC")
    ⟨0, rfl⟩ ⟨0, rfl⟩ ⟨0, rfl⟩ ⟨0, rfl⟩ rfl).mpr (by decide +kernel)

/-- The two vaults of two assets with the symbol `AB` have one wallet. -/
theorem assets_with_one_symbol : vaultOfAsset 1 ≠ vaultOfAsset 2 ∧
    (∀ currency ∈ [.foreignAsset 1, .foreignAsset 2, .token .KBTC], ∃ s,
      (registriesOfAssets [65, 66] [65, 66]).HasSymbol asciiPrimitives currency s) ∧
    ¬ Separate asciiPrimitives concretePrettyPrint (registriesOfAssets [65, 66] [65, 66]) none
      (vaultOfAsset 1) (vaultOfAsset 2) := by
  have hasset : ∀ id ∈ [1, 2], (registriesOfAssets [65, 66] [65, 66]).HasSymbol asciiPrimitives
      (.foreignAsset id) "AB" := by
    intro id hid
    simp only [List.mem_cons, List.not_mem_nil, or_false] at hid
    rcases hid with rfl | rfl <;> exact ⟨0, rfl⟩
  have hwrapped : (registriesOfAssets [65, 66] [65, 66]).HasSymbol asciiPrimitives
      (.token .KBTC) "KBTC" := ⟨0, rfl⟩
  refine ⟨by decide, ?_, ?_⟩
  · intro currency hcurrency
    simp only [List.mem_cons, List.not_mem_nil, or_false] at hcurrency
    rcases hcurrency with rfl | rfl | rfl
    · exact ⟨_, hasset 1 (by decide)⟩
    · exact ⟨_, hasset 2 (by decide)⟩
    · exact ⟨_, hwrapped⟩
  · intro hseparate
    obtain ⟨a, b, ha, hb, hne, -⟩ := hseparate.wallets
    rw [vaultWalletName_returns_iff (v := vaultOfAsset 1) (hasset 1 (by decide)) hwrapped] at ha
    rw [vaultWalletName_returns_iff (v := vaultOfAsset 2) (hasset 2 (by decide)) hwrapped] at hb
    exact hne (ha.trans hb.symm)

end InterBtcClients.Vault.Names
