import Almanac.Zone.Yearly

namespace Almanac.Zone

def americaNewYork : Zone :=
  ⟨"America/New_York", -17762,
    single [(-2717650800, -18000)] ++
    yearly 1918 1920 ⟨3, 25, 25200, -14400⟩ ⟨10, 25, 21600, -18000⟩ ++
    yearly 1921 1941 ⟨4, 24, 25200, -14400⟩ ⟨9, 24, 21600, -18000⟩ ++
    single [(-880218000, -14400), (-769395600, -14400), (-765396000, -18000)] ++
    yearly 1946 1954 ⟨4, 24, 25200, -14400⟩ ⟨9, 24, 21600, -18000⟩ ++
    yearly 1955 1973 ⟨4, 24, 25200, -14400⟩ ⟨10, 25, 21600, -18000⟩ ++
    single [(126687600, -14400), (152085600, -18000), (162370800, -14400), (183535200, -18000)] ++
    yearly 1976 1986 ⟨4, 24, 25200, -14400⟩ ⟨10, 25, 21600, -18000⟩ ++
    yearly 1987 2006 ⟨4, 1, 25200, -14400⟩ ⟨10, 25, 21600, -18000⟩ ++
    yearly 2007 2099 ⟨3, 8, 25200, -14400⟩ ⟨11, 1, 21600, -18000⟩⟩

def europeBerlin : Zone :=
  ⟨"Europe/Berlin", 3208,
    single [(-2422054408, 3600), (-1693706400, 7200), (-1680483600, 3600), (-1663455600, 7200),
      (-1650150000, 3600), (-1632006000, 7200), (-1618700400, 3600), (-938905200, 7200),
      (-857257200, 3600), (-844556400, 7200), (-828226800, 3600), (-812502000, 7200),
      (-796777200, 3600), (-781052400, 7200), (-776563200, 10800), (-765936000, 7200),
      (-761180400, 3600), (-748479600, 7200), (-733273200, 3600), (-717631200, 7200),
      (-714610800, 10800), (-710380800, 7200), (-701910000, 3600), (-684975600, 7200),
      (-670460400, 3600), (-654130800, 7200), (-639010800, 3600), (323830800, 7200),
      (338950800, 3600)] ++
    yearly 1981 1995 ⟨3, 25, 3600, 7200⟩ ⟨9, 24, 3600, 3600⟩ ++
    yearly 1996 2099 ⟨3, 25, 3600, 7200⟩ ⟨10, 25, 3600, 3600⟩⟩

def australiaLordHowe : Zone :=
  ⟨"Australia/Lord_Howe", 38180,
    single [(-2364114980, 36000), (352216800, 37800), (372785400, 41400)] ++
    yearly 1982 1984 ⟨3, 1, -34200, 37800⟩ ⟨10, 25, -30600, 41400⟩ ++
    single [(478621800, 37800), (499188600, 39600), (511282800, 37800), (530033400, 39600)] ++
    yearly 1987 1989 ⟨3, 15, -32400, 37800⟩ ⟨10, 25, -30600, 39600⟩ ++
    yearly 1990 1995 ⟨3, 1, -32400, 37800⟩ ⟨10, 25, -30600, 39600⟩ ++
    yearly 1996 1999 ⟨3, 25, -32400, 37800⟩ ⟨10, 25, -30600, 39600⟩ ++
    single [(953996400, 37800), (967303800, 39600)] ++
    yearly 2001 2005 ⟨3, 25, -32400, 37800⟩ ⟨10, 25, -30600, 39600⟩ ++
    single [(1143903600, 37800), (1162049400, 39600), (1174748400, 37800), (1193499000, 39600)] ++
    yearly 2008 2099 ⟨4, 1, -32400, 37800⟩ ⟨10, 1, -30600, 39600⟩⟩

def asiaKolkata : Zone :=
  ⟨"Asia/Kolkata", 21208,
    single [(-3645237208, 21200), (-3155694800, 19270), (-2019705670, 19800), (-891581400, 23400),
      (-872058600, 19800), (-862637400, 23400), (-764145000, 19800)]⟩

def asiaTokyo : Zone :=
  ⟨"Asia/Tokyo", 33539,
    single [(-2587712400, 32400), (-683802000, 36000), (-672310800, 32400), (-654771600, 36000),
      (-640861200, 32400), (-620298000, 36000), (-609411600, 32400), (-588848400, 36000),
      (-577962000, 32400)]⟩

def pacificApia : Zone :=
  ⟨"Pacific/Apia", 45184,
    single [(-2445424384, -41216), (-1861878784, -41400), (-631110600, -39600),
      (1285498800, -36000), (1301752800, -39600), (1316872800, -36000), (1325239200, 50400)] ++
    yearly 2012 2020 ⟨4, 1, -36000, 46800⟩ ⟨9, 24, -36000, 50400⟩ ++
    single [(1617458400, 46800)]⟩

def antarcticaTroll : Zone :=
  ⟨"Antarctica/Troll", 0,
    single [(1108166400, 0)] ++
    yearly 2005 2099 ⟨3, 25, 3600, 7200⟩ ⟨10, 25, 3600, 0⟩⟩

def americaJuneau : Zone :=
  ⟨"America/Juneau", 54139,
    single [(-3225223727, -32261), (-2188954939, -28800), (-880207200, -25200),
      (-769395600, -25200), (-765385200, -28800)] ++
    yearly 1969 1973 ⟨4, 24, 36000, -25200⟩ ⟨10, 25, 32400, -28800⟩ ++
    single [(126698400, -25200), (152096400, -28800), (162381600, -25200), (183546000, -28800)] ++
    yearly 1976 1979 ⟨4, 24, 36000, -25200⟩ ⟨10, 25, 32400, -28800⟩ ++
    single [(325677600, -28800), (341402400, -28800), (357127200, -25200), (372848400, -28800),
      (388576800, -25200), (404902800, -28800), (420026400, -25200), (436352400, -32400),
      (439030800, -32400)] ++
    yearly 1984 1986 ⟨4, 24, 39600, -28800⟩ ⟨10, 25, 36000, -32400⟩ ++
    yearly 1987 2006 ⟨4, 1, 39600, -28800⟩ ⟨10, 25, 36000, -32400⟩ ++
    yearly 2007 2099 ⟨3, 8, 39600, -28800⟩ ⟨11, 1, 36000, -32400⟩⟩

def americaSaoPaulo : Zone :=
  ⟨"America/Sao_Paulo", -11188,
    single [(-1767214412, -10800), (-1206957600, -7200), (-1191362400, -10800),
      (-1175374800, -7200), (-1159826400, -10800), (-633819600, -7200), (-622069200, -10800),
      (-602283600, -7200), (-591832800, -10800), (-570747600, -7200), (-560210400, -10800),
      (-539125200, -7200), (-531352800, -10800), (-195426000, -7200), (-184197600, -10800),
      (-155163600, -7200), (-150069600, -10800), (-128898000, -7200), (-121125600, -10800),
      (-99954000, -7200), (-89589600, -10800), (-68418000, -7200), (-57967200, -10800),
      (499748400, -7200), (511236000, -10800), (530593200, -7200), (540266400, -10800),
      (562129200, -7200), (571197600, -10800), (592974000, -7200), (602042400, -10800),
      (624423600, -7200), (634701600, -10800), (656478000, -7200), (666756000, -10800),
      (687927600, -7200), (697600800, -10800), (719982000, -7200), (728445600, -10800),
      (750826800, -7200), (761709600, -10800), (782276400, -7200), (793159200, -10800),
      (813726000, -7200), (824004000, -10800), (844570800, -7200), (856058400, -10800),
      (876106800, -7200), (888717600, -10800), (908074800, -7200), (919562400, -10800),
      (938919600, -7200), (951616800, -10800), (970974000, -7200), (982461600, -10800),
      (1003028400, -7200), (1013911200, -10800), (1036292400, -7200), (1045360800, -10800),
      (1066532400, -7200), (1076810400, -10800), (1099364400, -7200), (1108864800, -10800),
      (1129431600, -7200), (1140314400, -10800), (1162695600, -7200), (1172368800, -10800),
      (1192330800, -7200)] ++
    yearly 2008 2011 ⟨2, 15, 7200, -10800⟩ ⟨10, 15, 10800, -7200⟩ ++
    single [(1330221600, -10800), (1350788400, -7200)] ++
    yearly 2013 2017 ⟨2, 16, 7200, -10800⟩ ⟨10, 15, 10800, -7200⟩ ++
    single [(1518919200, -10800), (1541300400, -7200), (1550368800, -10800)]⟩

def africaMonrovia : Zone :=
  ⟨"Africa/Monrovia", -2588,
    single [(-2776979812, -2588), (-1604359012, -2670), (63593070, 0)]⟩

def asiaKathmandu : Zone :=
  ⟨"Asia/Kathmandu", 20476,
    single [(-1577943676, 19800), (504901800, 20700)]⟩

def pacificKwajalein : Zone :=
  ⟨"Pacific/Kwajalein", 40160,
    single [(-2177492960, 39600), (-1041418800, 36000), (-907408800, 32400), (-817462800, 39600),
      (-7988400, -43200), (745934400, 43200)]⟩

def asiaPyongyang : Zone :=
  ⟨"Asia/Pyongyang", 30180,
    single [(-1948782180, 30600), (-1830414600, 32400), (-768646800, 32400), (1439564400, 30600),
      (1525446000, 32400)]⟩

def etcGmtMinus12 : Zone := ⟨"Etc/GMT+12", -43200, []⟩

def pacificKiritimati : Zone :=
  ⟨"Pacific/Kiritimati", -37760,
    single [(-2177415040, -38400), (307622400, -36000), (788868000, 50400)]⟩

def asiaManila : Zone :=
  ⟨"Asia/Manila", -57368,
    single [(-3944621032, 29032), (-2219083200, 28800), (-1046678400, 32400), (-1040115600, 28800),
      (-885024000, 32400), (-880016400, 32400), (-783594000, 32400), (-760093200, 28800),
      (-496224000, 32400), (-491562000, 28800), (228326400, 32400), (243702000, 28800),
      (643219200, 32400), (649177200, 28800)]⟩

def table : List Zone :=
  [utc, americaNewYork, europeBerlin, australiaLordHowe, asiaKolkata, asiaTokyo, pacificApia,
    antarcticaTroll, americaJuneau, americaSaoPaulo, africaMonrovia, asiaKathmandu,
    pacificKwajalein, asiaPyongyang, etcGmtMinus12, pacificKiritimati, asiaManila]

def find? (name : String) : Option Zone := table.find? (·.name = name)

end Almanac.Zone
