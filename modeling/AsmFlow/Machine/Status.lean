import Mathlib.Tactic

/-!
# Status codes

A function of the daemon returns a signed status: negative for a failure.
-/

namespace AsmFlow

abbrev Status := ℤ

namespace Status

def ok : Status := 0
def invalid : Status := -1
def nomem : Status := -2
def overflow : Status := -3
def limit : Status := -4
def notFound : Status := -5
def alreadyExists : Status := -6
def again : Status := -7
def eof : Status := -8
def intr : Status := -9
def closed : Status := -10
def unsupported : Status := -11
def internal : Status := -12
def timeout : Status := -13
def cancelled : Status := -14
def perm : Status := -15
def range : Status := -16
def sys : Status := -20
def pipe : Status := -22

def jsonParse : Status := -40
def jsonType : Status := -41
def jsonDepth : Status := -42
def jsonSize : Status := -43

def cfgSchema : Status := -44
def cfgUnknownKey : Status := -45
def cfgMissingKey : Status := -46
def cfgPlaintext : Status := -47
def cfgSecretMissing : Status := -48
def cfgRef : Status := -49
def cfgVersion : Status := -50
def cfgDuplicate : Status := -51
def cfgUrl : Status := -52
def db : Status := -70
def dbBusy : Status := -71
def dbMigration : Status := -72
def dbSchema : Status := -73
def dbReadonly : Status := -74

def httpParse : Status := -90
def httpHeadersLarge : Status := -91
def httpBodyLarge : Status := -92
def httpAuth : Status := -96
def httpSmuggle : Status := -97

def upConnectFailed : Status := -120
def upDnsFailed : Status := -121
def upConnectTimeout : Status := -122
def upHttp502 : Status := -123
def upHttp503 : Status := -124
def upHttp504 : Status := -125
def upTls : Status := -126
def upTimeout : Status := -127
def upMalformed : Status := -128
def upStatus : Status := -129
def upCancelled : Status := -130

def routeNoTarget : Status := -152
def routeCapacity : Status := -153

def mcpSpawn : Status := -170
def mcpProtocol : Status := -171
def mcpFrameLarge : Status := -172
def mcpEra : Status := -173
def mcpVersion : Status := -174
def mcpTimeout : Status := -175
def mcpCrashLoop : Status := -176
def mcpNotReady : Status := -177
def mcpUnconfirmed : Status := -178
def mcpContaminated : Status := -179
def mcpHeaderMismatch : Status := -180

def ctlFrameLarge : Status := -200
def ctlParams : Status := -202
def ctlState : Status := -204

end Status
end AsmFlow
