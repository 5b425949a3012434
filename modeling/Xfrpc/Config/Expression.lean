import Xfrpc.Config.Loader

namespace Xfrpc.Config.Expression

open Config.Loader

structure Description where
  name : String
  type : Option String
  text : Text → Option String
  number : Number → Option ℤ
  flag : Flag → Option Bool
  serviceType : Option String

def Reads (d : Description) (k : Key) (value : String) : Prop :=
  match k with
  | .type => d.type = some value
  | .text t => d.text t = some value
  | .number n => d.number n = some (atoi value)
  | .flag f => d.flag f = some (flagValue value)
  | .serviceType => d.serviceType = some value

def given (d : Description) : Key → Bool
  | .type => d.type.isSome
  | .text t => (d.text t).isSome
  | .number n => (d.number n).isSome
  | .flag f => (d.flag f).isSome
  | .serviceType => d.serviceType.isSome

def SectionOf (sect name : String) : Prop :=
  sect = name ∧ sect ≠ "common" ∧ ¬ "proxy:".toList <+: sect.toList ∨
    sect = "proxy:" ++ name ∧ name ≠ ""

def Gives (d : Description) (k : Key) (e : IniEntry) : Prop :=
  SectionOf e.sect d.name ∧ e.nm = iniName k ∧ Reads d k e.value

/-- The entries give what the description does, in any order. Without an entry inih
does not report the section. -/
structure IniExpresses (entries : List IniEntry) (d : Description) : Prop where
  nonempty : entries ≠ []
  sound : ∀ e ∈ entries, ∃ k, Gives d k e
  complete : ∀ k, given d k = true → ∃ e ∈ entries, Gives d k e

structure TomlExpresses (sec : TomlSection) (d : Description) : Prop where
  name : sec "name" = some (.string d.name)
  enabled : sec "enabled" = none
  sound : ∀ k value, tomlText sec k = some value → Reads d k value
  complete : ∀ k, given d k = true → (tomlText sec k).isSome = true

/-- The structure of `xfrpc_start` has few fields, and zero for what is not given. -/
structure TcpExpresses (p : TcpProxy) (d : Description) : Prop where
  type : d.type = some "tcp"
  name : p.name = some d.name
  text : ∀ t, d.text t = if t = .localIp then p.localIp else none
  localPort : (d.number .localPort).getD 0 = p.localPort.toNat
  remotePort : (d.number .remotePort).getD 0 = p.remotePort.toNat
  number : ∀ n, n ≠ .localPort → n ≠ .remotePort → d.number n = none
  useEncryption : (d.flag .useEncryption).getD false = (p.useEncryption != 0)
  useCompression : (d.flag .useCompression).getD false = (p.useCompression != 0)
  serviceType : d.serviceType = none

/-- The description written over the defaults. -/
def plain (d : Description) : ProxyService :=
  { proxyName := d.name, proxyType := d.type, text := d.text
    number := fun n ↦ (d.number n).getD (defaultNumber n)
    flag := fun f ↦ (d.flag f).getD false
    serviceType := (d.serviceType.map convertServiceType).getD .noXdpi }

section Merge

variable (d : Description) (ps : ProxyService) (ks : List Key)

variable {d}

end Merge

end Xfrpc.Config.Expression
