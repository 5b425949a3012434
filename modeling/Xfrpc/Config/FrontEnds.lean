import Xfrpc.Config.Expression

namespace Xfrpc.Config.FrontEnds

open Config.Loader Config.Expression

def valid (d : Description) : Bool := (getValidType d.type).isSome && validateProxy (plain d)

section Toml

variable {sec : TomlSection} {d : Description}

end Toml

section Tcp

variable {p : TcpProxy} {d : Description}

end Tcp

section Ini

variable {d : Description}

end Ini

end Xfrpc.Config.FrontEnds
