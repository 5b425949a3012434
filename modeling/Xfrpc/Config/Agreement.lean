import Xfrpc.Config.FrontEnds

namespace Xfrpc.Config.Agreement

open Config.Loader Config.Expression Config.FrontEnds

inductive Loads (snappy : Bool) (d : Description) : Option Services → Prop
  | ini {entries : List IniEntry} : IniExpresses entries d → Loads snappy d (loadIni entries)
  | toml {sec : TomlSection} : TomlExpresses sec d → Loads snappy d (loadToml [sec])
  | tcp {p : TcpProxy} : TcpExpresses p d → Loads snappy d (xfrpcStart snappy [p])

structure Proper (snappy : Bool) (d : Description) (ps : ProxyService) : Prop where
  startTime : 0 ≤ ps.number .startTime ∧ ps.number .startTime ≤ 23
  endTime : 0 ≤ ps.number .endTime ∧ ps.number .endTime ≤ 23
  socks5 : d.type = some "socks5" → d.number .remotePort = none →
    ps.number .remotePort = defaultSocks5Port
  compression : snappy = false → ps.flag .useCompression = false

/-- All front ends reject the description, or all make the same proper record of it. -/
def Agree (snappy : Bool) (d : Description) : Prop :=
  (∀ r, Loads snappy d r → r = none) ∨
    ∃ ps, Proper snappy d ps ∧ ∀ r, Loads snappy d r → r = some [ps]

section Agreement

variable {snappy : Bool} {d : Description}

end Agreement

end Xfrpc.Config.Agreement
